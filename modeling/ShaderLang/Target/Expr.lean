import ShaderLang.Expr.Description
import ShaderLang.Target.Ty

/-!
# Expressions of the target

An expression is written as one line of GLSL.  An operand that is itself an operation is put in
parentheses, so no binding strength of the target matters.  Some trees have no text: a matrix cannot
be written, and a statement cannot stand where a value is needed.
-/

namespace ShaderLang

namespace Target

/-- Why an expression has no text. -/
inductive Refusal where
  /-- A matrix. -/
  | matrix
  /-- A node where it cannot stand. -/
  | misplaced (expr : Expr)
deriving Repr, Inhabited

namespace Refusal

/-- The message of a refusal. -/
def message : Refusal → String
  | matrix => "matrix literal cannot be generated"
  | misplaced expr => "malformed expression reached the generator: " ++ expr.describe

end Refusal

/-- Texts with commas between them. -/
def listed (texts : List String) : String :=
  ", ".intercalate texts

/-- A call, or a value that is built like one. -/
def applied (name : String) (args : List String) : String :=
  name ++ "(" ++ listed args ++ ")"

/-- The text of an operand, given its own text. -/
def operand (e : Expr) (text : String) : String :=
  match e with
  | .binary .. => "(" ++ text ++ ")"
  | _ => text

mutual

/-- The text of a value. -/
def value : Expr → Except Refusal String
  | .int n => .ok (toString n)
  | .bool b => .ok (toString b)
  | .float x => .ok x.text
  | .double x => .ok x.text
  | .vec2 x y => do return applied "vec2" [← value x, ← value y]
  | .vec3 x y z => do return applied "vec3" [← value x, ← value y, ← value z]
  | .vec4 x y z w => do return applied "vec4" [← value x, ← value y, ← value z, ← value w]
  | .mat4 _ => .error .matrix
  | .ref name => .ok name
  | .call name args => do return applied name (← values args)
  | .binary op lhs rhs => do
    let left ← value lhs
    let right ← value rhs
    return operand lhs left ++ " " ++ op.symbol ++ " " ++ operand rhs right
  | .field base name => do
    let text ← value base
    return operand base text ++ "." ++ name
  | .index base position => do
    let text ← value base
    return operand base text ++ "[" ++ (← value position) ++ "]"
  | .array items => do return "\x7b" ++ listed (← values items) ++ "\x7d"
  | e => .error (.misplaced e)

/-- The texts of some values. -/
def values : List Expr → Except Refusal (List String)
  | [] => .ok []
  | e :: es => do return (← value e) :: (← values es)

end

/-- The text of a statement that stands on its own. -/
def effect : Expr → Except Refusal String
  | .mutable ty name e | .constant ty name e => do
    return declarator ty name ++ " = " ++ (← value e)
  | .uninit ty name => .ok (declarator ty name)
  | .update name e | .output name e => do return name ++ " = " ++ (← value e)
  | .call name args => value (.call name args)
  | e => .error (.misplaced e)

end Target

end ShaderLang
