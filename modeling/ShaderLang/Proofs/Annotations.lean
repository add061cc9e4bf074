import Mathlib.Order.Monotone.Basic
import ShaderLang.Proofs.Coordinates

/-!
# Annotated ranges

A span of the masked text is led back to the source through three maps: from a place to an offset,
from there to an offset in the source, and from there to a number of characters.  Each of them moves
what lies past an end back to that end, and none of them changes the order.  So an annotation never
ends before it starts, nor after the source, wherever a span may point.

Main results:

- Theorem `offset_mono`: a later place has no smaller offset in the masked text.
- Theorem `sourceOffset_mono`: a greater offset is not led to a smaller one in the source.
- Theorem `annotations_within`: annotations start before they end, and end in the source.
-/

namespace ShaderLang

open Text

/-! ## Places in order -/

/-- Places are ordered by their lines, and those in one line by their columns. -/
instance : LE Pos where
  le p q := p.line < q.line ∨ p.line = q.line ∧ p.column ≤ q.column

instance (p q : Pos) : Decidable (p ≤ q) :=
  inferInstanceAs (Decidable (p.line < q.line ∨ p.line = q.line ∧ p.column ≤ q.column))

namespace Text

/-- Characters that are left out take away bytes. -/
theorem byteLength_sublist {cs ds : List Char} (h : cs.Sublist ds) :
    byteLength cs ≤ byteLength ds := by
  induction h with
  | slnil => exact Nat.le_refl 0
  | cons c _ ih => exact Nat.le_add_left_of_le ih
  | cons_cons c _ ih => exact Nat.add_le_add_left ih _

/-- The text after one more line. -/
theorem afterLines_succ (n : Nat) (cs : List Char) :
    afterLines (n + 1) cs = ((afterLines n cs).dropWhile (· != '\n')).drop 1 := by
  induction n generalizing cs with
  | zero => rfl
  | succ n ih => exact ih _

/-- A line is not part of the text after it. -/
theorem byteLength_afterLines_succ (n : Nat) (cs : List Char) :
    byteLength ((afterLines n cs).takeWhile (· != '\n')) + byteLength (afterLines (n + 1) cs) ≤
      byteLength (afterLines n cs) := by
  calc byteLength ((afterLines n cs).takeWhile (· != '\n')) + byteLength (afterLines (n + 1) cs)
    _ ≤ byteLength ((afterLines n cs).takeWhile (· != '\n')) +
          byteLength ((afterLines n cs).dropWhile (· != '\n')) := by
        rw [afterLines_succ]
        exact Nat.add_le_add_left (byteLength_sublist (List.drop_sublist _ _)) _
    _ = byteLength (afterLines n cs) := by
        rw [← byteLength_append, List.takeWhile_append_dropWhile]

/-- After more lines there are no more bytes. -/
theorem antitone_byteLength_afterLines (cs : List Char) :
    Antitone fun n => byteLength (afterLines n cs) := by
  refine antitone_nat_of_succ_le fun n => ?_
  exact (Nat.le_add_left _ _).trans (byteLength_afterLines_succ n cs)

end Text

namespace Masked

/-- A later place has no smaller offset in the masked text. -/
theorem offset_mono (m : Masked) {p q : Pos} (hline : 0 < p.line) (h : p ≤ q) :
    m.offset p ≤ m.offset q := by
  unfold offset
  rcases h with hearlier | ⟨hsame, hcolumn⟩
  · -- the first place lies in its line, and the line of the second one starts after that
    have hwithin := byteLength_sublist (List.take_sublist p.column
      ((afterLines (p.line - 1) m.text).takeWhile (· != '\n')))
    have hnext := byteLength_afterLines_succ (p.line - 1) m.text
    have hlater : byteLength (afterLines (q.line - 1) m.text) ≤
        byteLength (afterLines (p.line - 1 + 1) m.text) :=
      antitone_byteLength_afterLines m.text (by omega)
    have hall : byteLength (afterLines (p.line - 1) m.text) ≤ byteLength m.text :=
      antitone_byteLength_afterLines m.text (Nat.zero_le _)
    dsimp only
    omega
  · rw [hsame]
    exact Nat.add_le_add_left (byteLength_sublist (List.take_sublist_take_left hcolumn)) _

/-! ## Runs in order -/

/-- A run ends in the source before the next one starts. -/
theorem pairwise_segmentsOf (masked source : Nat) (pieces : List Piece) :
    (segmentsOf masked source pieces).Pairwise fun s t => s.source + s.length ≤ t.source := by
  induction pieces generalizing masked source with
  | nil => exact .nil
  | cons piece pieces ih =>
    refine List.Pairwise.cons (fun later hlater => ?_) (ih _ _)
    have hstart := (le_of_mem_segmentsOf hlater).2
    cases piece with
    | code text => exact hstart
    | line text | block text => exact (Nat.le_add_right _ _).trans hstart

/-- Some run leads back an offset, if there is one at the start of the masked text. -/
theorem exists_segment {m : Masked} {first : Segment} (hmem : first ∈ m.segments)
    (hfirst : first.masked = 0) (offset : Nat) :
    ∃ earlier segment later, m.segments = earlier ++ segment :: later ∧
      segment.masked ≤ offset ∧ ∀ other ∈ later, offset < other.masked := by
  cases hfind : m.segments.reverse.find? (·.masked ≤ offset) with
  | none =>
    rw [List.find?_eq_none] at hfind
    have := hfind first (List.mem_reverse.mpr hmem)
    simp [hfirst] at this
  | some segment =>
    obtain ⟨hstart, later, earlier, hsplit, hlater⟩ := List.find?_eq_some_iff_append.mp hfind
    refine ⟨earlier.reverse, segment, later.reverse, ?_, by simpa using hstart, ?_⟩
    · rw [← List.reverse_reverse m.segments, hsplit]
      simp
    · intro other hother
      simpa using hlater other (List.mem_reverse.mp hother)

/-- A greater offset in the masked text is not led to a smaller one in the source. -/
theorem sourceOffset_mono {pieces : List Piece} (hne : pieces ≠ []) {a b : Nat} (h : a ≤ b) :
    (ofPieces pieces).sourceOffset a ≤ (ofPieces pieces).sourceOffset b := by
  obtain ⟨piece, rest, rfl⟩ := List.exists_cons_of_ne_nil hne
  have hexists := @exists_segment (ofPieces (piece :: rest)) _ List.mem_cons_self rfl
  obtain ⟨earlier, s, later, hs, hsa, hlater⟩ := hexists a
  obtain ⟨earlier', t, later', ht, htb, hlater'⟩ := hexists b
  rw [sourceOffset_eq hs hsa hlater, sourceOffset_eq ht htb hlater']
  have hmem : s ∈ earlier' ++ t :: later' := by
    rw [← ht, hs]
    simp
  have hordered : (earlier' ++ t :: later').Pairwise fun s t => s.source + s.length ≤ t.source := by
    rw [← ht]
    exact pairwise_segmentsOf 0 0 _
  -- the run of the smaller offset stands before that of the greater one, or they are the same
  rcases List.mem_append.mp hmem with hbefore | hmem
  · have := (List.pairwise_append.mp hordered).2.2 s hbefore t List.mem_cons_self
    omega
  · rcases List.mem_cons.mp hmem with rfl | hafter
    · omega
    · have := hlater' s hafter
      omega

end Masked

/-! ## Ranges -/

/-- An annotation does not end before it starts, nor after a source of some length. -/
def Annotation.Within (length : Nat) (a : Annotation) : Prop :=
  a.start ≤ a.stop ∧ a.stop ≤ length

namespace SourceFile

/-- Every place is led to a place in the source. -/
theorem position_le_length (file : SourceFile) (place : Pos) :
    file.position place ≤ file.source.length := by
  unfold position
  split
  · exact Nat.sub_le _ _
  · exact charsWithin_le_length _ _

/-- A later place of the masked text is not led to an earlier place in the source. -/
theorem position_mono (name : String) {text : String} {m : Masked}
    (h : Masked.ofSource text.toList = .ok m) {p q : Pos} (hline : 0 < p.line) (hle : p ≤ q) :
    (ofText name text).position p ≤ (ofText name text).position q := by
  obtain ⟨pieces, hsplit, rfl⟩ := map_eq_ok.mp h
  have hfile : (ofText name text).masked = some (.ofPieces pieces) := by
    simp [ofText, h, Except.toOption]
  have hne : pieces ≠ [] := by
    rintro rfl
    cases (Piece.split_eq_ok_iff.mp hsplit).1
  have hline' : 0 < q.line := by
    rcases hle with hearlier | ⟨hsame, -⟩ <;> omega
  rw [position, position, if_neg (by omega), if_neg (by omega), offsetOf, offsetOf, hfile]
  refine charsWithin_mono ?_ _
  exact Masked.sourceOffset_mono hne (Masked.offset_mono _ hline hle)

/-- The places of a source whose comments are masked keep their order and are led to places in the
source, wherever they point.  So annotations lie within the source: those of every span in it, and
those of every offset in any source. -/
theorem annotations_within (name text : String) :
    (∀ m, Masked.ofSource text.toList = .ok m →
      (∀ p q : Pos, 0 < p.line → p ≤ q →
        (ofText name text).position p ≤ (ofText name text).position q ∧
          (ofText name text).position q ≤ text.length) ∧
      ∀ severity label (span : Span), 0 < span.start.line → span.start ≤ span.stop →
        ((ofText name text).annotate severity label span).Within text.length) ∧
    ∀ severity label offset,
      (SourceFile.annotation severity label ((ofText name text).offsetRange offset)).Within
        text.length := by
  have hlength : (ofText name text).source.length = text.length := String.length_toList
  have hwithin := (ofText name text).position_le_length
  rw [hlength] at hwithin
  refine ⟨fun m hm => ⟨?_, ?_⟩, ?_⟩
  · intro p q hline hle
    exact ⟨position_mono name hm hline hle, hwithin q⟩
  · intro severity label span hline hle
    exact ⟨position_mono name hm hline hle, hwithin span.stop⟩
  · intro severity label offset
    unfold Annotation.Within
    simp only [SourceFile.annotation, offsetRange, hlength]
    omega

/-- An annotation from past the end of a line with a comment to past the end of the text, and one of
a comment that is not closed. -/
theorem annotations_within_past_ends :
    (∃ m, Masked.ofSource "é/*ü\n*/+//d".toList = .ok m) ∧
      (⟨1, 99⟩ : Pos) ≤ ⟨7, 7⟩ ∧
      ((ofText "test.fs" "é/*ü\n*/+//d").annotate .warning "here" ⟨⟨1, 99⟩, ⟨7, 7⟩⟩).Within 11 ∧
      (SourceFile.annotation .error "here" ((ofText "test.fs" "é/*").offsetRange 4)).Within 3 := by
  have hsplit : Piece.split 0 "é/*ü\n*/+//d".toList =
      .ok [.code ['é'], .block ['ü', '\n'], .code ['+'], .line ['d'], .code []] := by
    decide +kernel
  have hmasked : Masked.ofSource "é/*ü\n*/+//d".toList = .ok (.ofPieces _) :=
    map_eq_ok.mpr ⟨_, hsplit, rfl⟩
  refine ⟨⟨_, hmasked⟩, by decide, ?_, ?_⟩
  · exact ((annotations_within "test.fs" "é/*ü\n*/+//d").1 _ hmasked).2 .warning "here"
      ⟨⟨1, 99⟩, ⟨7, 7⟩⟩ (by decide) (by decide)
  · exact (annotations_within "test.fs" "é/*").2 .error "here" 4

end SourceFile

end ShaderLang
