import ShaderLang.Text.Quoted

/-!
# Comments between tokens

Plain comments separate tokens like blanks do.  A documentation comment is an attribute of what
follows, or of what encloses it, and becomes tokens.
-/

namespace ShaderLang.Lexeme

open Text

/-- The text of a line up to its end, and the number of characters; a carriage return before the
line feed is passed over but is not part of the text. -/
def restOfLine : List Char → List Char × Nat
  | [] => ([], 0)
  | '\n' :: _ => ([], 0)
  | '\r' :: '\n' :: _ => ([], 1)
  | c :: cs =>
    let (text, n) := restOfLine cs
    (c :: text, n + 1)

/-- Length of a block comment from the place where it is open `depth` times to its last closing
mark; block comments nest. -/
def blockEnd? : Nat → List Char → Option Nat
  | depth, '/' :: '*' :: cs => (blockEnd? (depth + 1) cs).map (· + 2)
  | depth, '*' :: '/' :: cs => if depth ≤ 1 then some 2 else (blockEnd? (depth - 1) cs).map (· + 2)
  | depth, _ :: cs => (blockEnd? depth cs).map (· + 1)
  | _, [] => none

/-- Length of a block comment. -/
def block? : List Char → Option Nat
  | '/' :: '*' :: cs => (blockEnd? 1 cs).map (· + 2)
  | _ => none

/-- Length of a plain comment. -/
def plainComment? : List Char → Option Nat
  | '/' :: '/' :: '/' :: '/' :: cs => some ((restOfLine cs).2 + 4)
  | '/' :: '/' :: '/' :: _ => none
  | '/' :: '/' :: '!' :: _ => none
  | '/' :: '/' :: cs => some ((restOfLine cs).2 + 2)
  | '/' :: '*' :: '*' :: '/' :: _ => some 4
  | '/' :: '*' :: '*' :: '*' :: cs => block? ('/' :: '*' :: '*' :: '*' :: cs)
  | '/' :: '*' :: '*' :: _ => none
  | '/' :: '*' :: '!' :: _ => none
  | cs => block? cs

/-- A documentation comment. -/
structure Documentation where
  text : List Char
  /-- It speaks of what encloses it, not of what follows. -/
  inner : Bool
  length : Nat

/-- The documentation comment at the start of a text; a carriage return may stand in it only
before a line feed. -/
def documentation? (cs : List Char) : Option Documentation := do
  let found ← match cs with
    | '/' :: '/' :: '!' :: rest =>
      let (text, n) := restOfLine rest
      some ⟨text, true, n + 3⟩
    | '/' :: '/' :: '/' :: '/' :: _ => none
    | '/' :: '/' :: '/' :: rest =>
      let (text, n) := restOfLine rest
      some ⟨text, false, n + 3⟩
    | '/' :: '*' :: '!' :: rest => (block? cs).map fun n => ⟨rest.take (n - 5), true, n⟩
    | '/' :: '*' :: '*' :: '*' :: _ => none
    | '/' :: '*' :: '*' :: rest => (block? cs).map fun n => ⟨rest.take (n - 5), false, n⟩
    | _ => none
  if pairedReturns found.text then return found else none

end ShaderLang.Lexeme
