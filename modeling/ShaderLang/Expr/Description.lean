import ShaderLang.Expr.Basic
import ShaderLang.Floating.Decimal
import ShaderLang.Text.Quoted

/-!
# Descriptions of expressions

A message that is about an expression describes it as a tree: every node with its kind and its
parts, on one line.
-/

namespace ShaderLang

namespace Describe

/-- Parts with commas between them. -/
def listed (parts : List String) : String :=
  ", ".intercalate parts

/-- A kind with its parts in order. -/
def tuple (kind : String) (parts : List String) : String :=
  kind ++ "(" ++ listed parts ++ ")"

/-- A kind with its named parts. -/
def record (kind : String) (parts : List (String × String)) : String :=
  kind ++ " \x7b " ++ listed (parts.map fun (name, part) => name ++ ": " ++ part) ++ " \x7d"

/-- Any number of parts. -/
def sequence (parts : List String) : String :=
  "[" ++ listed parts ++ "]"

/-- A part that may be missing. -/
def optional : Option String → String
  | some part => tuple "Some" [part]
  | none => "None"

/-- A text in quotes. -/
def quoted (text : String) : String :=
  String.ofList (Text.quote text.toList)

/-- A block with the descriptions of what it holds. -/
def block (parts : List String) : String :=
  record "Seq" [("exprs", sequence parts)]

end Describe

open Describe

/-- The description of a type. -/
def Ty.describe : Ty → String
  | array item size => tuple "Array" [item.describe, toString size]
  | ty => ty.display

namespace Expr

mutual

/-- The description of an expression. -/
def describe : Expr → String
  | mutable ty name value =>
    record "Mut" [("ty", ty.describe), ("name", quoted name), ("value", optional value.describe)]
  | uninit ty name =>
    record "Mut" [("ty", ty.describe), ("name", quoted name), ("value", optional none)]
  | constant ty name value =>
    record "Const" [("ty", ty.describe), ("name", quoted name), ("value", value.describe)]
  | update name value => record "Update" [("name", quoted name), ("value", value.describe)]
  | output name value => record "Out" [("name", quoted name), ("value", value.describe)]
  | branch cond yes no =>
    record "Branch" [("cond", cond.describe), ("then", block (describeAll yes)),
      ("otherwise", block (describeAll no))]
  | loop bound counter body =>
    record "For" [("bound", bound.describe), ("counter", optional (counter.map quoted)),
      ("body", block (describeAll body))]
  | scope body => record "Scope" [("body", block (describeAll body))]
  | int value => tuple "I" [toString value]
  | bool value => tuple "B" [toString value]
  | float value => tuple "F" [value.text]
  | double value => tuple "D" [value.text]
  | vec2 x y => tuple "V2" [sequence [x.describe, y.describe]]
  | vec3 x y z => tuple "V3" [sequence [x.describe, y.describe, z.describe]]
  | vec4 x y z w => tuple "V4" [sequence [x.describe, y.describe, z.describe, w.describe]]
  | mat4 items => tuple "Mat4" [sequence (describeAll items)]
  | ref name => tuple "Ref" [quoted name]
  | call name args =>
    record "App" [("name", quoted name), ("args", sequence (describeAll args))]
  | binary op lhs rhs =>
    record "BinOp" [("op", op.label), ("lhs", lhs.describe), ("rhs", rhs.describe)]
  | field base name => record "AccessN" [("base", base.describe), ("field", quoted name)]
  | index base position =>
    record "AccessI" [("base", base.describe), ("index", position.describe)]
  | array items => tuple "Array" [sequence (describeAll items)]
  | lineComment text => tuple "SComment" [quoted text]
  | blockComment text => tuple "BComment" [quoted text]
  | done => "NOp"

/-- The description of each expression of a list. -/
def describeAll : List Expr → List String
  | [] => []
  | e :: es => e.describe :: describeAll es

end

end Expr

end ShaderLang
