import ShaderLang.Lexeme.Number
import ShaderLang.Token.Basic

/-!
# Spelling of literals

Strings, characters, bytes and numbers, each with the suffix that may follow directly.  `literal?`
gives the literal at the start of a text and the number of characters it takes.
-/

namespace ShaderLang.Lexeme

open Text

/-- Length of a quoted text and of its suffix, given the text and its length. -/
def withTail (cs : List Char) (n : Nat) : Nat :=
  n + identLength (cs.drop n)

/-- The number signs and the opening quote of a raw string, with what follows. -/
def rawOpening (cs : List Char) : Option (List Char × List Char) :=
  let signs := cs.takeWhile (· == '#')
  match cs.drop signs.length with
  | '"' :: rest => if signs.length ≤ 255 then some (signs, rest) else none
  | _ => none

/-- A string in quotes, or a raw one, with its text. -/
def string? : List Char → Option (List Char × Nat)
  | '"' :: cs => (readQuoted cs).map fun (text, n) => (text, withTail ('"' :: cs) (n + 1))
  | 'r' :: cs => do
    let (signs, rest) ← rawOpening cs
    let (text, n) ← readRaw signs rest
    return (text, withTail ('r' :: cs) (n + signs.length + 2))
  | _ => none

/-! ## Bytes -/

/-- What stands after a backslash in bytes: one named character, or two digits of base sixteen. -/
def byteEscape? : List Char → Option Nat
  | 'x' :: a :: b :: _ => if isHexDigit a && isHexDigit b then some 3 else none
  | c :: _ => if ['n', 'r', 't', '\\', '0', '\'', '"'].contains c then some 1 else none
  | [] => none

/-- The blanks that a break of the line leaves out in bytes. -/
def byteBreak? (cs : List Char) : Option Nat :=
  let run := cs.takeWhile fun c => [' ', '\t', '\n', '\r'].contains c
  if startsWith (fun c => c == '\n' || c == '\r') cs && pairedReturns run then some run.length
  else none

/-- Length of quoted bytes after their opening quote: ASCII only. -/
def quotedBytes? (cs : List Char) : Option Nat :=
  match cs with
  | [] => none
  | '"' :: _ => some 1
  | '\r' :: '\n' :: rest => (quotedBytes? rest).map (· + 2)
  | '\r' :: _ => none
  | '\\' :: rest =>
    match (byteEscape? rest).or (byteBreak? rest) with
    | none => none
    | some n => (quotedBytes? (rest.drop n)).map (· + n + 1)
  | c :: rest => if c.toNat < 0x80 then (quotedBytes? rest).map (· + 1) else none
termination_by cs.length
decreasing_by all_goals grind

/-- Length of a string of bytes, quoted or raw. -/
def bytes? : List Char → Option Nat
  | 'b' :: '"' :: cs => (quotedBytes? cs).map fun n => withTail ('b' :: '"' :: cs) (n + 2)
  | 'b' :: 'r' :: cs => do
    let (signs, rest) ← rawOpening cs
    let (text, n) ← readRaw signs rest
    if text.all (·.toNat < 0x80) then
      return withTail ('b' :: 'r' :: cs) (n + signs.length + 3)
    else none
  | _ => none

/-- Length of one byte in single quotes. -/
def byte? : List Char → Option Nat
  | 'b' :: '\'' :: cs => do
    let n ← match cs with
      | [] => none
      | '\\' :: rest => (byteEscape? rest).map (· + 1)
      | c :: _ => if c.toNat < 0x80 then some 1 else none
    if startsWith (· == '\'') (cs.drop n) then
      return withTail ('b' :: '\'' :: cs) (n + 3)
    else none
  | _ => none

/-- Length of one character in single quotes. -/
def character? : List Char → Option Nat
  | '\'' :: cs => do
    let n ← match cs with
      | [] => none
      | '\\' :: rest =>
        match readEscape rest with
        | some (some _, n) => some (n + 1)
        | _ => none
      | _ :: _ => some 1
    if startsWith (· == '\'') (cs.drop n) then
      return withTail ('\'' :: cs) (n + 2)
    else none
  | _ => none

/-- The literal at the start of a text, and its length. -/
def literal? (cs : List Char) : Option (Literal × Nat) :=
  match string? cs with
  | some (text, n) => some (.string text, n)
  | none =>
    match (bytes? cs).or ((byte? cs).or (character? cs)) with
    | some n => some (.other, n)
    | none => (number? cs).map fun n => (.number (cs.take n), n)

end ShaderLang.Lexeme
