import ShaderLang.Expr.Basic
import ShaderLang.Floating.Decimal
import ShaderLang.Grammar.Mark
import ShaderLang.Lexeme.Number

/-!
# Numerals

What the spelling of a number means: a whole number of any size in one of four bases, or a decimal
fraction, and a suffix that chooses the type.  A minus sign directly before a number belongs to it.
-/

namespace ShaderLang

/-- The meaning of the spelling of a number. -/
inductive Numeral where
  | integer (value : Nat) (suffix : String)
  | fraction (value : Decimal) (suffix : String)
deriving DecidableEq, Repr

namespace Numeral

open Lexeme Text

/-- The number that digits spell in a base; underscores between them mean nothing. -/
def ofDigits (base : Nat) (digits : List Char) : Nat :=
  digits.foldl (fun n c => if c == '_' then n else n * base + hexValue c) 0

/-- Digits and a suffix as a whole number. -/
def whole (base : Nat) (isDigit : Char → Bool) (text : List Char) : Numeral :=
  .integer (ofDigits base (text.takeWhile isDigit)) (String.ofList (text.dropWhile isDigit))

/-- The exponent after its letter, and the suffix after that. -/
def exponent (text : List Char) (length : Nat) : Int × List Char :=
  let digits := text.take length
  let value := ofDigits 10 (digits.filter Char.isDigit)
  (if digits.contains '-' then -(value : Int) else value, text.drop length)

/-- The decimal fraction and suffix that stand after some digits, or none for a whole number. -/
def fraction? (digits rest : List Char) : Option Numeral :=
  match rest with
  | '.' :: rest =>
    let places := rest.takeWhile isDigitOrGap
    let (power, suffix) := (exponentPart? (rest.drop places.length)).getD
      (0, rest.drop places.length)
    some (make (digits ++ places) (power - (places.filter Char.isDigit).length) suffix)
  | rest => (exponentPart? rest).map fun (power, suffix) => make digits power suffix
where
  /-- A decimal with a suffix. -/
  make (digits : List Char) (power : Int) (suffix : List Char) : Numeral :=
    .fraction ⟨ofDigits 10 digits, power⟩ (String.ofList suffix)
  /-- An exponent with its letter. -/
  exponentPart? : List Char → Option (Int × List Char)
    | [] => none
    | c :: text =>
      if c == 'e' || c == 'E' then (exponent? text).map (exponent text) else none

/-- The meaning of the spelling of a number. -/
def ofText : List Char → Numeral
  | '0' :: 'x' :: text => whole 16 (fun c => isDigitOrGap c || isHexDigit c) text
  | '0' :: 'o' :: text => whole 8 isDigitOrGap text
  | '0' :: 'b' :: text => whole 2 isDigitOrGap text
  | text =>
    let digits := text.takeWhile isDigitOrGap
    (fraction? digits (text.drop digits.length)).getD (whole 10 isDigitOrGap text)

/-- The suffix of a numeral. -/
def suffix : Numeral → String
  | integer _ suffix => suffix
  | fraction _ suffix => suffix

/-- It is a decimal fraction. -/
def isFraction : Numeral → Bool
  | integer .. => false
  | fraction .. => true

/-- The value of double precision nearest to a numeral. -/
def toDouble : Numeral → Double
  | integer value _ => (Decimal.mk value 0).toDouble
  | fraction value _ => value.toDouble

end Numeral

/-- A literal as the grammar sees it. -/
inductive Constant where
  | number (negative : Bool) (numeral : Numeral)
  | truth (value : Bool)
  | string
  | other
deriving Repr

namespace Grammar

/-- The literal that stands first, with its width and where it stands: a number with the minus sign
before it, a truth value, or any other literal. -/
def literal? : List Token → Option (Taken (Constant × Span))
  | .literal (.number text) span :: _ => some ⟨(.number false (.ofText text), span), 1⟩
  | .literal (.string _) span :: _ => some ⟨(.string, span), 1⟩
  | .literal .other span :: _ => some ⟨(.other, span), 1⟩
  | .ident "true" span :: _ => some ⟨(.truth true, span), 1⟩
  | .ident "false" span :: _ => some ⟨(.truth false, span), 1⟩
  | .punct '-' _ sign :: .literal (.number text) span :: _ =>
    some ⟨(.number true (.ofText text), sign.join span), 2⟩
  | _ => none

/-- A whole number within the bounds of 64 bits. -/
def int64 (negative : Bool) (value : Nat) : Except Cause Int :=
  if negative then if value ≤ 1 <<< 63 then .ok (-(value : Int)) else .error .integerTooSmall
  else if value < 1 <<< 63 then .ok value else .error .integerTooLarge

/-- An integer of 64 bits, or its opposite if `negate`.  The least integer has no opposite of 64
bits and is refused then. -/
def negateIf (negate : Bool) (n : Int) : Except Cause Int :=
  if negate then if n = -((1 <<< 63 : Nat) : Int) then .error .integerOverflow else .ok (-n)
  else .ok n

/-- The expression that a literal stands for, or its opposite if `negate`.  Without a suffix a whole
number is an integer and a fraction has single precision; a fraction of single precision is rounded
from the nearest one of double precision.  Both the integer and its opposite must fit in 64 bits. -/
def number (negate : Bool) : Constant → Except Cause Expr
  | .number negative numeral =>
    let flip := negate != negative
    match numeral, numeral.suffix with
    | .integer value _, "" => do
      let n ← int64 negative value
      return .int (← negateIf negate n)
    | _, "d" | _, "f64" =>
      let x := numeral.toDouble
      if x.isFinite then .ok (.double (if flip then x.neg else x)) else .error (.outOfRange true)
    | _, "" | _, "f" | _, "f32" =>
      let x := numeral.toDouble.toSingle
      if x.isFinite then .ok (.float (if flip then x.neg else x)) else .error (.outOfRange false)
    | _, suffix => .error (.unknownSuffix numeral.isFraction suffix)
  | _ => .error .notANumber

/-- A whole number of 64 bits without a sign that stands first. -/
def size (stop : Span) (tokens : List Token) : Except Fault (Taken (Except Fault Nat)) :=
  match literal? tokens with
  | some ⟨(.number negative (.integer value _), span), width⟩ =>
    .ok ⟨if negative then .error ⟨.integerNegative, span⟩
      else if value < 1 <<< 64 then .ok value else .error ⟨.integerTooLarge, span⟩, width⟩
  | _ => .error (.missing stop tokens .integer)

end Grammar

end ShaderLang
