import ShaderLang.Expr.Basic

/-!
# Declarations

What a source declares: pipeline variables, functions, shaders, and programs of one vertex and one
fragment shader.
-/

namespace ShaderLang

/-- The part that a global variable plays in the pipeline. -/
inductive Qualifier where
  | uniform
  | attrib
  | varying
deriving DecidableEq, Repr, Inhabited

namespace Qualifier

/-- The keyword of a qualifier. -/
def keyword : Qualifier → String
  | uniform => "uniform"
  | attrib => "attribute"
  | varying => "varying"

end Qualifier

/-- A global variable with its qualifier. -/
structure Global where
  qualifier : Qualifier
  ty : Ty
  name : String
deriving DecidableEq, Repr, Inhabited

namespace Global

/-- The same variable with another qualifier. -/
def requalify (global : Global) (qualifier : Qualifier) : Global :=
  { global with qualifier }

end Global

/-- How a function is provided. -/
inductive Linkage where
  /-- It stands for a uniform. -/
  | uniform
  /-- It stands for an input or output of a shader. -/
  | varying
  /-- It has a body. -/
  | body (label : String) (block : Block)
deriving Repr, Inhabited

/-- A function; without a result it returns nothing. -/
structure Func where
  name : String
  params : List (String × Ty)
  result : Option Ty
  linkage : Linkage
deriving Repr, Inhabited

namespace Func

/-- The entry of a uniform. -/
def uniform (name : String) (ty : Ty) : Func :=
  ⟨name, [], some ty, .uniform⟩

/-- The entry of an input or output of a shader. -/
def varying (global : Global) : Func :=
  ⟨global.name, [], some global.ty, .varying⟩

/-- The variable that an entry stands for, if it has no body. -/
def global? (func : Func) : Option Global :=
  match func.linkage with
  | .uniform => func.result.map (⟨.uniform, ·, func.name⟩)
  | .varying => func.result.map (⟨.varying, ·, func.name⟩)
  | .body .. => none

/-- The body of a function, if it has one. -/
def body? (func : Func) : Option Block :=
  match func.linkage with
  | .body _ block => some block
  | _ => none

end Func

/-- A stage of the pipeline. -/
inductive Stage where
  | vertex
  | fragment
deriving DecidableEq, Repr, Inhabited

namespace Stage

/-- The name of a stage. -/
def label : Stage → String
  | vertex => "vertex"
  | fragment => "fragment"

end Stage

/-- A shader. -/
structure Shader where
  stage : Stage
  inputs : List Global
  outputs : List Global
  body : Block
deriving Repr, Inhabited

/-- A vertex and a fragment shader that are linked together. -/
structure Program where
  uniforms : List Global
  /-- The inputs of the vertex shader, as attributes. -/
  attributes : List Global
  vertex : Shader
  fragment : Shader
deriving Repr, Inhabited

/-- The functions and programs that a source declares, in the order of the text. -/
structure Module where
  functions : List Func
  programs : List (String × Program)
deriving Repr, Inhabited

end ShaderLang
