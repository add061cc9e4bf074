import ShaderLang.Text.Blank
import ShaderLang.Text.Printable

/-!
# Quoted text

A quoted text stands between double quotes.  `quote` writes one; `readQuoted` reads one, together
with the other spellings that the escapes of a string literal allow, and `readRaw` reads one
without escapes.  A reader starts after the opening quote and tells how many characters it takes,
the closing quote included.
-/

namespace ShaderLang.Text

/-- The digits of a number in base sixteen, in lower case. -/
def hexDigits (n : Nat) : List Char :=
  Nat.toDigits 16 n

/-- A digit of base sixteen, in either case. -/
def isHexDigit (c : Char) : Bool :=
  c.isDigit || ('a' ≤ c && c ≤ 'f') || ('A' ≤ c && c ≤ 'F')

/-- The value of a digit of base sixteen, and zero for any other character. -/
def hexValue (c : Char) : Nat :=
  if c.isDigit then c.toNat - '0'.toNat
  else if 'a' ≤ c && c ≤ 'f' then c.toNat - 'a'.toNat + 10
  else if 'A' ≤ c && c ≤ 'F' then c.toNat - 'A'.toNat + 10
  else 0

/-! ## Writing -/

/-- One character of a quoted text. -/
def quoteChar (c : Char) : List Char :=
  if c = '\t' then ['\\', 't']
  else if c = '\r' then ['\\', 'r']
  else if c = '\n' then ['\\', 'n']
  else if c = '"' then ['\\', '"']
  else if c = '\\' then ['\\', '\\']
  else if c = '\x00' then ['\\', '0']
  else if extendsGrapheme c || !isPrintable c then
    ['\\', 'u', '\x7b'] ++ hexDigits c.toNat ++ ['\x7d']
  else [c]

/-- A text between quotes, with escapes for what is not plainly visible. -/
def quote (cs : List Char) : List Char :=
  '"' :: cs.flatMap quoteChar ++ ['"']

/-! ## Reading -/

/-- The character that a code point between braces names, with the number of characters up to the
closing brace: one to six digits, underscores allowed after the first. -/
def readCodePoint (cs : List Char) : Option (Char × Nat) :=
  let run := cs.takeWhile fun c => isHexDigit c || c == '_'
  let digits := run.filter (· != '_')
  let value := digits.foldl (fun n c => n * 16 + hexValue c) 0
  if run.head? != some '_' && digits != [] && digits.length ≤ 6
      && (cs.drop run.length).head? == some '\x7d' then
    if valid : value.isValidChar then some (Char.ofNatAux value valid, run.length + 1) else none
  else none

/-- Every carriage return of a stretch is followed by a line feed. -/
def pairedReturns : List Char → Bool
  | [] => true
  | '\r' :: '\n' :: cs => pairedReturns cs
  | '\r' :: _ => false
  | _ :: cs => pairedReturns cs

/-- What stands after a backslash: the character it names, or none for a break of the line that is
left out together with the white space after it, and the number of characters. -/
def readEscape : List Char → Option (Option Char × Nat)
  | 'n' :: _ => some (some '\n', 1)
  | 'r' :: _ => some (some '\r', 1)
  | 't' :: _ => some (some '\t', 1)
  | '\\' :: _ => some (some '\\', 1)
  | '0' :: _ => some (some '\x00', 1)
  | '\'' :: _ => some (some '\'', 1)
  | '"' :: _ => some (some '"', 1)
  | 'x' :: a :: b :: _ =>
    if '0' ≤ a && a ≤ '7' && isHexDigit b then
      some (some (Char.ofNat (hexValue a * 16 + hexValue b)), 3)
    else none
  | 'u' :: '\x7b' :: cs => (readCodePoint cs).map fun (c, n) => (some c, n + 2)
  | '\n' :: cs => lineBreak ('\n' :: cs)
  | '\r' :: cs => lineBreak ('\r' :: cs)
  | _ => none
where
  /-- The white space that a break of the line leaves out. -/
  lineBreak (cs : List Char) : Option (Option Char × Nat) :=
    let run := cs.takeWhile isWhiteSpace
    if pairedReturns run then some (none, run.length) else none

/-- The text up to the closing quote, and the number of characters with that quote. -/
def readQuoted (cs : List Char) : Option (List Char × Nat) :=
  match cs with
  | [] => none
  | '"' :: _ => some ([], 1)
  | '\r' :: '\n' :: rest => (readQuoted rest).map fun (text, n) => ('\n' :: text, n + 2)
  | '\r' :: _ => none
  | '\\' :: rest =>
    match readEscape rest with
    | none => none
    | some (c, n) => (readQuoted (rest.drop n)).map fun (text, k) => (c.toList ++ text, k + n + 1)
  | c :: rest => (readQuoted rest).map fun (text, n) => (c :: text, n + 1)
termination_by cs.length
decreasing_by all_goals grind

/-- The text up to the first quote with all the number signs after it, and the number of characters
with them. -/
def readRaw (signs : List Char) : List Char → Option (List Char × Nat)
  | [] => none
  | '"' :: cs =>
    if signs.isPrefixOf cs then some ([], signs.length + 1)
    else (readRaw signs cs).map fun (text, n) => ('"' :: text, n + 1)
  | '\r' :: '\n' :: cs => (readRaw signs cs).map fun (text, n) => ('\r' :: '\n' :: text, n + 2)
  | '\r' :: _ => none
  | c :: cs => (readRaw signs cs).map fun (text, n) => (c :: text, n + 1)

end ShaderLang.Text
