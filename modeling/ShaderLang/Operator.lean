/-!
# Binary operators

Sixteen operators with their spelling and their binding strength.  The comparisons do not share one
level: `<` binds tighter than `<=`, which binds tighter than `==`, and so on down to `>`.
-/

namespace ShaderLang

/-- A binary operator. -/
inductive Operator where
  | add
  | sub
  | mul
  | div
  | mod
  | and
  | or
  | eq
  | neq
  | gte
  | gt
  | lte
  | lt
  | bitAnd
  | bitOr
  | bitXor
deriving DecidableEq, Repr, Inhabited

namespace Operator

/-- All operators. -/
def all : List Operator :=
  [add, sub, mul, div, mod, and, or, eq, neq, gte, gt, lte, lt, bitAnd, bitOr, bitXor]

/-- Binding strength; a higher one binds tighter. -/
def prec : Operator → Nat
  | mul | div | mod => 13
  | add | sub => 12
  | lt => 11
  | lte => 10
  | eq => 9
  | neq => 8
  | gte => 7
  | gt => 6
  | bitAnd => 5
  | bitXor => 4
  | bitOr => 3
  | and => 2
  | or => 1

/-- The spelling of an operator, the same in source and target. -/
def symbol : Operator → String
  | add => "+"
  | sub => "-"
  | mul => "*"
  | div => "/"
  | mod => "%"
  | and => "&&"
  | or => "||"
  | eq => "=="
  | neq => "!="
  | gte => ">="
  | gt => ">"
  | lte => "<="
  | lt => "<"
  | bitAnd => "&"
  | bitOr => "|"
  | bitXor => "^"

/-- The name by which a message calls an operator. -/
def label : Operator → String
  | add => "Add"
  | sub => "Sub"
  | mul => "Mul"
  | div => "Div"
  | mod => "Mod"
  | and => "And"
  | or => "Or"
  | eq => "Eq"
  | neq => "Neq"
  | gte => "Gte"
  | gt => "Gt"
  | lte => "Lte"
  | lt => "Lt"
  | bitAnd => "BitAnd"
  | bitOr => "BitOr"
  | bitXor => "BitXor"

end Operator

end ShaderLang
