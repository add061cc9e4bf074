import ShaderLang.Disk
import ShaderLang.Loading
import ShaderLang.Target.Stage

/-!
# Commands

A command checks a source file or generates its programs.  What it does with the text of the file
is a `Plan`: the diagnostics to report, then either steps to take or a reason to fail.  No step is
taken before everything is generated.  `Command.run` takes the steps of a plan on a disk.
-/

namespace ShaderLang

/-- What is wanted of a source file. -/
inductive Task where
  /-- Only check it. -/
  | check
  /-- Generate all programs or those of one name, into a folder or onto the standard output. -/
  | generate (folder : Option String) (only : Option String)
deriving DecidableEq, Repr

/-- A command. -/
structure Command where
  source : String
  color : Bool
  task : Task
deriving DecidableEq, Repr

/-- Something that a command does at last. -/
inductive Step where
  | print (text : String)
  | makeFolders (path : String)
  | write (path : String) (text : String)
deriving DecidableEq, Repr

/-- What a command does with the text of its source file. -/
structure Plan where
  /-- The diagnostics, which are reported in any case. -/
  reports : List String
  /-- The steps to take, or the reason to fail. -/
  outcome : Except String (List Step)

namespace Command

/-! ## Arguments -/

/-- The source file if none is given. -/
def defaultSource : String := "./shaders.fs"

/-- The options of a command line. -/
structure Options where
  source : String := defaultSource
  folder : Option String := none
  only : Option String := none
  color : Bool := true

/-- Set an option that has a value. -/
def Options.set (options : Options) (name value : String) : Option Options :=
  match name with
  | "--source-file" => some { options with source := value }
  | "--out-dir" => some { options with folder := some value }
  | "--program" => some { options with only := some value }
  | _ => none

/-- Read options; a value stands after its option or after an equals sign. -/
def Options.read (options : Options) : List String → Option Options
  | [] => some options
  | ["--no-color"] => some { options with color := false }
  | [arg] =>
    match arg.splitOn "=" with
    | name :: value :: more => options.set name ("=".intercalate (value :: more))
    | _ => none
  | arg :: value :: rest =>
    if arg = "--no-color" then Options.read { options with color := false } (value :: rest)
    else
      match arg.splitOn "=" with
      | name :: first :: more => do
        let options ← options.set name ("=".intercalate (first :: more))
        options.read (value :: rest)
      | _ => do
        let options ← options.set arg value
        options.read rest

/-- The command that some arguments spell. -/
def ofArgs : List String → Option Command
  | "lint" :: args => do
    let options ← Options.read {} args
    if options.folder.isSome || options.only.isSome then none
    else some ⟨options.source, options.color, .check⟩
  | "gen" :: args => do
    let options ← Options.read {} args
    some ⟨options.source, options.color, .generate options.folder options.only⟩
  | _ => none

/-! ## Plans -/

/-- The message of a source file that cannot be loaded. -/
def notLoaded (source : String) (diagnostics : List Diagnostic) : String :=
  let count := diagnostics.countP Diagnostic.isError
  "could not load `" ++ source ++ "` due to " ++ toString count ++ " previous error" ++
    (if count = 1 then "" else "s")

/-- The steps for one generated program. -/
def programSteps (folder : Option String) (name : String) (text : Target.ProgramText) :
    List Step :=
  match folder with
  | some folder =>
    [.makeFolders folder,
      .write (Disk.join folder (name ++ ".vert")) text.vertex,
      .write (Disk.join folder (name ++ ".frag")) text.fragment]
  | none =>
    [.print ("// " ++ name ++ ".vert\n" ++ text.vertex),
      .print ("// " ++ name ++ ".frag\n" ++ text.fragment)]

/-- The steps for a loaded module. -/
def steps (command : Command) (module : Module) : Except String (List Step) :=
  match command.task with
  | .check =>
    .ok [.print (command.source ++ ": " ++ toString module.programs.length ++ " programs\n")]
  | .generate folder only =>
    match Target.generate module only with
    | .error refusal => .error refusal.message
    | .ok programs =>
      match only, programs with
      | some name, [] => .error ("no program named `" ++ name ++ "`")
      | _, _ => .ok (programs.flatMap fun (name, text) => programSteps folder name text)

/-- What a command does with the text of its source file. -/
def plan (command : Command) (text : String) : Plan :=
  let file := SourceFile.ofText command.source text
  let loaded := load [] text.toList
  let reports := loaded.diagnostics.map (·.render file command.color)
  match loaded.module with
  | none => ⟨reports, .error (notLoaded command.source loaded.diagnostics)⟩
  | some module => ⟨reports, command.steps module⟩

/-! ## Running -/

/-- What a command leaves behind. -/
structure Result where
  failed : Bool
  output : String
  errors : String
  disk : Disk

namespace Result

/-- Add a line to the reported errors. -/
def report (result : Result) (line : String) : Result :=
  { result with errors := result.errors ++ line ++ "\n" }

/-- Report a failure. -/
def fail (result : Result) (message : String) : Result :=
  { result.report message with failed := true }

/-- Take a step. -/
def step (result : Result) : Step → Except DiskError Result
  | .print text => .ok { result with output := result.output ++ text }
  | .makeFolders path => do return { result with disk := ← result.disk.makeFolders path }
  | .write path text => do return { result with disk := ← result.disk.write path text }

/-- Take steps until one fails. -/
def steps (result : Result) : List Step → Result
  | [] => result
  | step :: rest =>
    match result.step step with
    | .ok result => result.steps rest
    | .error error => result.fail error.message

end Result

/-- Run a command on a disk. -/
def run (command : Command) (disk : Disk) : Result :=
  let start : Result := ⟨false, "", "", disk⟩
  match disk.read command.source with
  | .error error => start.fail error.message
  | .ok text =>
    let plan := command.plan text
    let reported := plan.reports.foldl Result.report start
    match plan.outcome with
    | .error message => reported.fail message
    | .ok steps => reported.steps steps

end Command

end ShaderLang
