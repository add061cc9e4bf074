import ShaderLang.Module
import ShaderLang.Target.Page

/-!
# Stages and programs of the target

The text of a stage declares the global variables, then the functions that have a body, then `main`
with the body of the shader.  A program has one text for each of its two stages.
-/

namespace ShaderLang

namespace Target

/-! ## Stages -/

/-- The declaration of a global variable. -/
def globalLine (global : Global) : String :=
  global.qualifier.keyword ++ " " ++ declarator global.ty global.name ++ ";"

/-- The header of a function. -/
def header (func : Func) : String :=
  let result := (func.result.map typeName).getD "void"
  let params := func.params.map fun (name, ty) => declarator ty name
  result ++ " " ++ applied func.name params

namespace Page

/-- Write what every stage starts with. -/
def preamble (page : Page) : Page :=
  ((page.line "precision highp float;").line "precision highp int;").skip

/-- Write the declarations of global variables. -/
def globals (page : Page) (globals : List Global) : Page :=
  let written := globals.foldl (fun page global => page.line (globalLine global)) page
  if globals.isEmpty then written else written.skip

/-- Write a function that has a body. -/
def function (page : Page) (func : Func) : Except Refusal Page :=
  match func.body? with
  | none => .ok page
  | some body => do
    let page ← (page.openBlock (header func)).block body
    return page.closeBlock.skip

/-- Write the functions that have a body. -/
def functions (page : Page) : List Func → Except Refusal Page
  | [] => .ok page
  | func :: rest => do
    let page ← page.function func
    page.functions rest

end Page

/-- The page of a stage. -/
def stagePage (globals : List Global) (functions : List Func) (shader : Shader) :
    Except Refusal Page := do
  let page ← (Page.blank.preamble.globals globals).functions functions
  let page ← (page.openBlock "void main()").block shader.body
  return page.closeBlock

/-- The text of a stage. -/
def stage (globals : List Global) (functions : List Func) (shader : Shader) :
    Except Refusal String :=
  (stagePage globals functions shader).map Page.text

/-! ## Programs -/

/-- The texts of the two stages of a program. -/
structure ProgramText where
  vertex : String
  fragment : String
deriving DecidableEq, Repr

/-- The global variables of the vertex stage. -/
def vertexGlobals (program : Program) : List Global :=
  program.uniforms ++ program.attributes ++ program.vertex.outputs

/-- The global variables of the fragment stage. -/
def fragmentGlobals (program : Program) : List Global :=
  program.uniforms ++ program.fragment.inputs ++ program.fragment.outputs

/-- The texts of a program. -/
def program (functions : List Func) (program : Program) : Except Refusal ProgramText := do
  let vertex ← stage (vertexGlobals program) functions program.vertex
  let fragment ← stage (fragmentGlobals program) functions program.fragment
  return ⟨vertex, fragment⟩

/-- The programs of a module that are wanted: all, or those of one name. -/
def selected (module : Module) (only : Option String) : List (String × Program) :=
  module.programs.filter fun (name, _) => only.all (name == ·)

/-- The texts of some programs, with their names. -/
def programs (functions : List Func) :
    List (String × Program) → Except Refusal (List (String × ProgramText))
  | [] => .ok []
  | (name, first) :: rest => do
    let text ← program functions first
    return (name, text) :: (← programs functions rest)

/-- The texts of the wanted programs of a module, unless one of them has none. -/
def generate (module : Module) (only : Option String) :
    Except Refusal (List (String × ProgramText)) :=
  programs module.functions (selected module only)

end Target

end ShaderLang
