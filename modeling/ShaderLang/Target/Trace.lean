import ShaderLang.Event
import ShaderLang.Target.Stage

/-!
# What happens while programs are written

The events of writing some programs, up to the first function, stage or program that has no text.
-/

namespace ShaderLang

namespace Target

/-- The events of writing some functions; what follows a function without a text is not reached. -/
def functionEvents : List Func → List Event
  | [] => []
  | func :: rest =>
    match func.linkage with
    | .body label block =>
      .functionEmitted label ::
        if (Page.blank.block block).toBool then functionEvents rest else []
    | _ => functionEvents rest

/-- The events of writing a program: both stages emit all functions. -/
def programEvents (functions : List Func) (program : Program) : List Event :=
  let events := functionEvents functions
  if (stage (vertexGlobals program) functions program.vertex).toBool then events ++ events
  else events

/-- The events of writing some programs. -/
def programsEvents (functions : List Func) : List (String × Program) → List Event
  | [] => []
  | (name, first) :: rest =>
    .programGenerated name :: programEvents functions first ++
      if (program functions first).toBool then programsEvents functions rest else []

/-- The events of writing the wanted programs of a module. -/
def events (module : Module) (only : Option String) : List Event :=
  programsEvents module.functions (selected module only)

end Target

end ShaderLang
