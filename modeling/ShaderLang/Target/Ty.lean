import ShaderLang.Ty

/-!
# Types of the target

How GLSL spells a type and declares a variable of it.  The size of an array stands after the name of
the variable.
-/

namespace ShaderLang

namespace Target

/-- The name of a type. -/
def typeName : Ty → String
  | .int => "int"
  | .bool => "bool"
  | .float => "float"
  | .vec2 => "vec2"
  | .vec3 => "vec3"
  | .vec4 => "vec4"
  | .mat4 => "mat4"
  | .array item size => typeName item ++ "[" ++ toString size ++ "]"

/-- The declaration of a name of some type. -/
def declarator (ty : Ty) (name : String) : String :=
  match ty with
  | .array item size => typeName item ++ " " ++ name ++ "[" ++ toString size ++ "]"
  | ty => typeName ty ++ " " ++ name

end Target

end ShaderLang
