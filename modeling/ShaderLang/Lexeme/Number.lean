import ShaderLang.Text.Identifier
import ShaderLang.Text.Quoted

/-!
# Spelling of identifiers and numbers

A recogniser looks at the start of a text and tells how many characters of it belong together.  The
main ones are `identLength`, `identifier?` and `number?`.
-/

namespace ShaderLang.Lexeme

open Text

/-! ## Identifiers -/

/-- Length of the identifier at the start of a text, zero if there is none. -/
def identLength : List Char → Nat
  | [] => 0
  | c :: cs => if isIdentStart c then (cs.takeWhile isIdentContinue).length + 1 else 0

/-- Names that have no raw form. -/
def neverRaw : List String :=
  ["_", "super", "self", "Self", "crate"]

/-- Length of an identifier, plain or raw. -/
def identifier? : List Char → Option Nat
  | 'r' :: '#' :: cs =>
    let n := identLength cs
    if n == 0 || neverRaw.contains (String.ofList (cs.take n)) then none else some (n + 2)
  | cs =>
    let n := identLength cs
    if n == 0 then none else some n

/-! ## Numbers -/

/-- A decimal digit or the underscore that may stand between digits. -/
def isDigitOrGap (c : Char) : Bool :=
  c.isDigit || c == '_'

/-- The first character of a text satisfies a test. -/
def startsWith (p : Char → Bool) : List Char → Bool
  | [] => false
  | c :: _ => p c

/-- Length of an exponent after its letter: an optional sign and at least one digit. -/
def exponent? (cs : List Char) : Option Nat :=
  let run := cs.takeWhile isDigitOrGap
  if run.any Char.isDigit then some run.length
  else
    match cs.drop run.length with
    | [] => none
    | sign :: rest =>
      let digits := rest.takeWhile isDigitOrGap
      if (sign == '+' || sign == '-') && digits.any Char.isDigit then
        some (run.length + 1 + digits.length)
      else none

/-- Length of a number with a point, an exponent or both, its suffix left out.  The point is not
followed by a second point or an identifier; an exponent without digits is none. -/
def decimalFraction? (cs : List Char) : Option Nat :=
  if !startsWith Char.isDigit cs then none
  else
    let whole := (cs.takeWhile isDigitOrGap).length
    match cs.drop whole with
    | '.' :: rest =>
      if startsWith (fun c => c == '.' || isIdentStart c) rest then none
      else
        let upTo := whole + 1 + (rest.takeWhile isDigitOrGap).length
        some (upTo + exponentPart (cs.drop upTo))
    | rest =>
      let n := exponentPart rest
      if n == 0 then none else some (whole + n)
where
  /-- Length of the exponent with its letter, zero if there is none. -/
  exponentPart : List Char → Nat
    | [] => 0
    | c :: cs =>
      if c == 'e' || c == 'E' then
        match exponent? cs with
        | some n => n + 1
        | none => 0
      else 0

/-- Length of an integer in base ten, or in base sixteen, eight or two after its mark, its suffix
left out.  A decimal digit that is too large for the base spoils it. -/
def integer? : List Char → Option Nat
  | '0' :: 'x' :: cs => (run 16 cs).map (· + 2)
  | '0' :: 'o' :: cs => (run 8 cs).map (· + 2)
  | '0' :: 'b' :: cs => (run 2 cs).map (· + 2)
  | cs => if startsWith Char.isDigit cs then run 10 cs else none
where
  /-- Length of the digits of a base. -/
  run (base : Nat) (cs : List Char) : Option Nat :=
    let digits := cs.takeWhile fun c => isDigitOrGap c || (base == 16 && isHexDigit c)
    if digits.all (· == '_') || digits.any (fun c => c.isDigit && base ≤ hexValue c) then none
    else some digits.length

/-- Length with the suffix, an identifier directly after; no other identifier character may
follow. -/
def withSuffix (cs : List Char) (n : Nat) : Option Nat :=
  let suffix := identLength (cs.drop n)
  if startsWith isIdentContinue (cs.drop (n + suffix)) then none else some (n + suffix)

/-- Length of a number with its suffix. -/
def number? (cs : List Char) : Option Nat :=
  ((decimalFraction? cs).bind (withSuffix cs)).or ((integer? cs).bind (withSuffix cs))

end ShaderLang.Lexeme
