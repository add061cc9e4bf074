import ShaderLang.Module
import ShaderLang.Grammar.Name

/-!
# Declarations as written

A declaration as the text gives it, with the names it mentions and where they stand, before it is
decided what the names refer to.
-/

namespace ShaderLang

/-- A parameter, input or output of a signature. -/
structure Param where
  name : Ident
  ty : Ty
deriving DecidableEq, Repr

namespace Param

/-- An input or output of a shader. -/
def varying (param : Param) : Global :=
  ⟨.varying, param.ty, param.name.text⟩

end Param

/-- A declaration as written. -/
inductive Declaration where
  | uniform (ty : Ty) (name : Ident)
  | function (name : Ident) (params : List Param) (result : Option Ty) (body : Block)
  | shader (stage : Stage) (name : Ident) (inputs outputs : List Global) (body : Block)
  /-- A shader as the composite `down . up`. -/
  | composition (stage : Stage) (name : Ident) (inputs outputs : List Global) (down up : Ident)
  | program (name vertex fragment : Ident)
deriving Repr

end ShaderLang
