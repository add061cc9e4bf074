import ShaderLang.Text.Bytes
import ShaderLang.Text.Position
import ShaderLang.Text.Quoted

/-!
# Masked comments

Comments are part of the language, since they are copied into the generated code, but tokens do
not hold them.  So a source is first cut into code and comments, and every comment is replaced by a
marker `#[line = "text"]` or `#[block = "text"]` with the same number of lines.
`Masked.sourceOffset` leads from an offset of the masked text back to the source.
-/

namespace ShaderLang

open Text

/-! ## Code and comments -/

/-- A piece of a source. -/
inductive Piece where
  | code (text : List Char)
  /-- The text of a comment after `//`, without the end of the line. -/
  | line (text : List Char)
  /-- The text between `/*` and the first `*/` after it. -/
  | block (text : List Char)
deriving Repr, DecidableEq

namespace Piece

/-- The code before the first comment. -/
def codeBefore : List Char → List Char
  | [] => []
  | '/' :: '/' :: _ => []
  | '/' :: '*' :: _ => []
  | c :: cs => c :: codeBefore cs

/-- The text before the first `*/`. -/
def blockText? : List Char → Option (List Char)
  | [] => none
  | '*' :: '/' :: _ => some []
  | c :: cs => (blockText? cs).map (c :: ·)

/-- Cut a source that starts at an offset into pieces.  There is a piece of code, perhaps empty,
before each comment and at the end.  A block comment that is not closed is reported by its
offset. -/
def split (offset : Nat) (cs : List Char) : Except Nat (List Piece) :=
  let code := codeBefore cs
  let start := offset + byteLength code
  match _h : cs.drop code.length with
  | '/' :: '/' :: rest =>
    let text := rest.takeWhile (· != '\n')
    match split (start + 2 + byteLength text) (rest.drop text.length) with
    | .ok pieces => .ok (.code code :: .line text :: pieces)
    | .error unclosed => .error unclosed
  | '/' :: '*' :: rest =>
    match blockText? rest with
    | none => .error start
    | some text =>
      match split (start + 4 + byteLength text) (rest.drop (text.length + 2)) with
      | .ok pieces => .ok (.code code :: .block text :: pieces)
      | .error unclosed => .error unclosed
  | _ => .ok [.code code]
termination_by cs.length
decreasing_by
  all_goals
    have := congrArg List.length _h
    simp only [List.length_drop, List.length_cons] at this
    simp only [List.length_drop]
    omega

/-- The stretch of source that a piece was cut from. -/
def source : Piece → List Char
  | code text => text
  | line text => '/' :: '/' :: text
  | block text => '/' :: '*' :: text ++ ['*', '/']

/-- The code before the first comment is where a source starts. -/
theorem codeBefore_append_drop (cs : List Char) :
    codeBefore cs ++ cs.drop (codeBefore cs).length = cs := by
  fun_induction codeBefore cs with
  | case1 => rfl
  | case2 => rfl
  | case3 => rfl
  | case4 c cs _ _ ih => simp [ih]

/-- The code before the first comment ends with the source or where a comment starts. -/
theorem drop_codeBefore (cs : List Char) :
    cs.drop (codeBefore cs).length = [] ∨
      (∃ rest, cs.drop (codeBefore cs).length = '/' :: '/' :: rest) ∨
      ∃ rest, cs.drop (codeBefore cs).length = '/' :: '*' :: rest := by
  fun_induction codeBefore cs with
  | case1 => simp
  | case2 => simp
  | case3 => simp
  | case4 c cs _ _ ih => simpa using ih

/-- The text of a block comment is followed by its closing mark. -/
theorem eq_of_blockText? {cs text : List Char} (h : blockText? cs = some text) :
    cs = text ++ '*' :: '/' :: cs.drop (text.length + 2) := by
  fun_induction blockText? cs generalizing text with
  | case1 => simp at h
  | case2 rest =>
    cases h
    simp
  | case3 c cs _ ih =>
    obtain ⟨tail, htail, rfl⟩ := Option.map_eq_some_iff.1 h
    have hrest := ih htail
    simpa using hrest

/-- The marker of a comment; carriage returns are left out of its text. -/
def marker (kind : String) (text : List Char) : List Char :=
  ("#[" ++ kind ++ " = ").toList ++ quote (text.filter (· != '\r')) ++ [']']

/-- What stands for a piece in the masked text. -/
def masked : Piece → List Char
  | code text => text
  | line text => marker "line" text
  | block text => marker "block" text ++ text.filter (· == '\n')

end Piece

/-! ## The masked text -/

/-- A run of masked text and the source it comes from.  Offsets past `length` in the run lead to the
end of that much source; a marker has length zero. -/
structure Segment where
  masked : Nat
  source : Nat
  length : Nat
deriving Repr, DecidableEq

/-- A source with its comments masked. -/
structure Masked where
  text : List Char
  segments : List Segment
deriving Repr

namespace Masked

/-- The runs of some pieces that start at given offsets of the masked text and of the source. -/
def segmentsOf (masked source : Nat) : List Piece → List Segment
  | [] => []
  | piece :: pieces =>
    let length :=
      match piece with
      | .code text => byteLength text
      | _ => 0
    ⟨masked, source, length⟩ ::
      segmentsOf (masked + byteLength piece.masked) (source + byteLength piece.source) pieces

/-- The masked text of some pieces. -/
def ofPieces (pieces : List Piece) : Masked :=
  ⟨pieces.flatMap Piece.masked, segmentsOf 0 0 pieces⟩

/-- Mask the comments of a source, or give the offset of a block comment that is not closed. -/
def ofSource (source : List Char) : Except Nat Masked :=
  (Piece.split 0 source).map ofPieces

/-- The offset of a place in the masked text; a place past the end of its line, or of the text, is
moved back to that end. -/
def offset (m : Masked) (place : Pos) : Nat :=
  let rest := afterLines (place.line - 1) m.text
  byteLength m.text - byteLength rest +
    byteLength ((rest.takeWhile (· != '\n')).take place.column)

/-- The offset in the source that an offset in the masked text comes from. -/
def sourceOffset (m : Masked) (offset : Nat) : Nat :=
  match m.segments.reverse.find? (·.masked ≤ offset) with
  | some segment => segment.source + min (offset - segment.masked) segment.length
  | none => offset

end Masked

end ShaderLang
