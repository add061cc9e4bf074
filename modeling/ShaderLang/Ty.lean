/-!
# Value types

The types of bindings, parameters, results and pipeline variables, and their spelling in the source
language.
-/

namespace ShaderLang

/-- A value type; an array has a fixed number of items. -/
inductive Ty where
  | int
  | bool
  | float
  | vec2
  | vec3
  | vec4
  | mat4
  | array (item : Ty) (size : Nat)
deriving DecidableEq, Repr, Inhabited

namespace Ty

/-- The types that have a name of their own, in the order in which a missing type lists them. -/
def named : List (String × Ty) :=
  [("Int", int), ("Bool", bool), ("Float", float), ("Vec2", vec2), ("Vec3", vec3), ("Vec4", vec4),
   ("Mat4", mat4)]

/-- The number of components of a vector. -/
def vectorSize : Ty → Option Nat
  | vec2 => some 2
  | vec3 => some 3
  | vec4 => some 4
  | _ => none

/-- The spelling of a type in the source language. -/
def display : Ty → String
  | int => "Int"
  | bool => "Bool"
  | float => "Float"
  | vec2 => "Vec2"
  | vec3 => "Vec3"
  | vec4 => "Vec4"
  | mat4 => "Mat4"
  | array item size => "[" ++ item.display ++ "; " ++ toString size ++ "]"

end Ty

end ShaderLang
