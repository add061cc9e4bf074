import ShaderLang.Command

/-!
# The command line

Reads the source file of a command, and takes the steps of its plan.
-/

namespace ShaderLang

namespace CommandLine

/-- The message of a failed operation of the system. -/
def systemMessage : IO.Error → String
  | .noFileOrDirectory .. => DiskError.notFound.message
  | .alreadyExists .. => DiskError.alreadyThere.message
  | .inappropriateType _ 21 _ => DiskError.isFolder.message
  | .inappropriateType .. => DiskError.notFolder.message
  | error => toString error

/-- Take a step. -/
def take : Step → IO Unit
  | .print text => IO.print text
  | .makeFolders path => if path.isEmpty then pure () else IO.FS.createDirAll path
  | .write path text => IO.FS.writeFile path text

/-- Take steps until one fails. -/
def takeAll (steps : List Step) : IO UInt32 := do
  try
    steps.forM take
    return 0
  catch error =>
    IO.eprintln (systemMessage error)
    return 1

/-- Report the diagnostics of a plan and take its steps. -/
def perform (plan : Plan) : IO UInt32 := do
  plan.reports.forM fun report => IO.eprintln report
  match plan.outcome with
  | .error message =>
    IO.eprintln message
    return 1
  | .ok steps => takeAll steps

/-- Run a command. -/
def run (command : Command) : IO UInt32 := do
  let content ←
    try
      pure (Except.ok (← IO.FS.readBinFile command.source))
    catch error =>
      pure (.error (systemMessage error))
  match content with
  | .error message =>
    IO.eprintln message
    return 1
  | .ok bytes =>
    match String.fromUTF8? bytes with
    | none =>
      IO.eprintln DiskError.notText.message
      return 1
    | some text => perform (command.plan text)

/-- How the program is called. -/
def usage : String :=
  "usage: lint [--source-file FILE] [--no-color]\n" ++
  "       gen [--source-file FILE] [--out-dir FOLDER] [--program NAME] [--no-color]"

end CommandLine

end ShaderLang

/-- Run the command that the arguments spell. -/
def main (args : List String) : IO UInt32 := do
  match ShaderLang.Command.ofArgs args with
  | some command => ShaderLang.CommandLine.run command
  | none =>
    IO.eprintln ShaderLang.CommandLine.usage
    return 1
