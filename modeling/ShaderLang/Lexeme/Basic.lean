import ShaderLang.Lexeme.Comment
import ShaderLang.Lexeme.Literal

/-!
# Lexemes

The flat reading of a text: leaf tokens and single delimiters in order, up to the end of the text or
to the first character that starts nothing.  `lexemes` cuts one item after another from the text;
each item takes at least one character.
-/

namespace ShaderLang

/-- An item of the flat reading. -/
inductive Lexeme where
  | leaf (token : Token)
  | opener (delim : Delim) (place : Pos)
  | closer (delim : Delim) (place : Pos)
  /-- No token starts here; nothing after this place is read. -/
  | fault (place : Pos)

namespace Lexeme

open Text

/-! ## Single items -/

/-- The punctuation characters. -/
def marks : List Char :=
  "~!@#$%^&*-=+|;:,<.>/?'".toList

/-- A punctuation character stands at the start of a text, and not the start of a comment. -/
def startsMark : List Char → Bool
  | '/' :: '/' :: _ => false
  | '/' :: '*' :: _ => false
  | c :: _ => marks.contains c
  | [] => false

/-- The punctuation at the start of a text and whether it is joint.  A single quote starts a
lifetime: an identifier follows it, not closed by another quote and not followed by a number sign
unless it is raw. -/
def punctuation? (cs : List Char) : Option (Char × Bool) :=
  match cs with
  | [] => none
  | '\'' :: rest =>
    match identifier? rest with
    | none => none
    | some n =>
      let tail := rest.drop n
      let isRaw := ['r', '#'].isPrefixOf rest
      if startsWith (· == '\'') tail || (startsWith (· == '#') tail && !isRaw) then none
      else some ('\'', true)
  | c :: rest => if startsMark cs then some (c, startsMark rest) else none

/-- Beginnings that belong to strings and bytes and so to no identifier.  Those with a `c` open the
strings of C, which are no literals here: a text with one is refused. -/
def quoteOpenings : List (List Char) :=
  ["r\"", "r#\"", "r##", "b\"", "b'", "br\"", "br#", "c\"", "cr\"", "cr#"].map String.toList

/-- The identifier at the start of a text, where no string or bytes begin. -/
def name? (cs : List Char) : Option Nat :=
  if quoteOpenings.any (·.isPrefixOf cs) then none else identifier? cs

/-- The delimiter that opens a group. -/
def openDelim? : Char → Option Delim
  | '(' => some .paren
  | '[' => some .bracket
  | '\x7b' => some .brace
  | _ => none

/-- The delimiter that closes a group. -/
def closeDelim? : Char → Option Delim
  | ')' => some .paren
  | ']' => some .bracket
  | '\x7d' => some .brace
  | _ => none

/-- The attribute that a documentation comment stands for: a number sign, an exclamation mark if
it is inner, and `doc = text` in brackets, all at the place of the comment. -/
def documentationTokens (doc : Documentation) (span : Span) : List Token :=
  .punct '#' false span ::
    (if doc.inner then [.punct '!' false span] else []) ++
    [.group .bracket
      [.ident "doc" span, .punct '=' false span, .literal (.string doc.text) span] span]

/-- Length of the blank or the plain comment at the start of a text. -/
def blank? (cs : List Char) : Option Nat :=
  match cs with
  | [] => none
  | c :: _ => if isBlank c then some 1 else plainComment? cs

/-- The leaf token at the start of a text that stands at a place, and its length. -/
def leaf? (place : Pos) (cs : List Char) : Option (Token × Nat) :=
  let span (n : Nat) : Span := ⟨place, place.after (cs.take n)⟩
  match literal? cs with
  | some (value, n) => some (.literal value (span n), n)
  | none =>
    match punctuation? cs with
    | some (mark, joint) => some (.punct mark joint (span 1), 1)
    | none => (name? cs).map fun n => (.ident (String.ofList (cs.take n)) (span n), n)

/-- The item at the start of a text that stands at a place, as lexemes, and its length: a blank is
no lexeme, and a documentation comment is several. -/
def item (place : Pos) (cs : List Char) : List Lexeme × Option Nat :=
  match blank? cs with
  | some n => ([], some n)
  | none =>
    match documentation? cs with
    | some doc =>
      let span : Span := ⟨place, place.after (cs.take doc.length)⟩
      ((documentationTokens doc span).map leaf, some doc.length)
    | none =>
      match cs.head?.bind openDelim? with
      | some delim => ([opener delim place], some 1)
      | none =>
        match cs.head?.bind closeDelim? with
        | some delim => ([closer delim place], some 1)
        | none =>
          match leaf? place cs with
          | some (token, n) => ([leaf token], some n)
          | none => ([fault place], none)

/-! ## The whole text -/

/-- The lexemes of a text that starts at a place. -/
def lexemes (place : Pos) (cs : List Char) : List Lexeme :=
  match cs with
  | [] => []
  | c :: rest =>
    match item place (c :: rest) with
    | (found, none) => found
    | (found, some n) =>
      found ++ lexemes (place.after (c :: rest.take (n - 1))) (rest.drop (n - 1))
termination_by cs.length
decreasing_by grind

/-- The lexemes of a whole text; a byte order mark at its start is passed over. -/
def ofText : List Char → List Lexeme
  | '\uFEFF' :: cs => lexemes ⟨1, 1⟩ cs
  | cs => lexemes .start cs

end Lexeme

end ShaderLang
