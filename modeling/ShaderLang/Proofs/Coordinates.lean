import ShaderLang.Proofs.Comments
import ShaderLang.Proofs.Outcome
import ShaderLang.SourceFile

/-!
# Coordinates of a masked text

A message names a line and a column of the masked text, and has to show a character of the source.
Between the two stand offsets in bytes of either text.  In code all of these name the same
character; in the marker of a comment they name the start of the comment.

Main results:

- Theorem `offset_after`: the place after a part of the masked text leads to the length of that
  part.
- Theorem `sourceOffset_comment`: an offset in a marker leads to the start of the comment.
- Theorem `sourceOffset_code`: an offset in code leads to the same character of the source.
- Theorem `coordinates_agree`: in code all coordinates name one character, and in a marker they name
  the start of the comment.
-/

namespace ShaderLang

open Text

namespace Masked

/-! ## Places and offsets -/

/-- The place after a part of the masked text leads to the length of that part. -/
theorem offset_after {m : Masked} {before after : List Char} (htext : m.text = before ++ after) :
    m.offset (Pos.start.after before) = byteLength before := by
  obtain ⟨first, last, hsplit, hlast, hcolumn, hafter⟩ :=
    @afterLines_append [] (by simp) 1 before after
  have hline : (Pos.start.after before).line - 1 = before.count '\n' := by
    rw [line_after]
    simp [Pos.start]
  have hcolumn : (Pos.start.after before).column = last.length := hcolumn
  have hrest : ((last ++ after).takeWhile (· != '\n')).take last.length = last := by
    rw [List.takeWhile_append_of_pos fun c hc => by simpa using ne_of_mem_of_not_mem hc hlast]
    exact List.take_left
  rw [List.nil_append] at hsplit hafter
  rw [offset, hline, htext, hafter, hcolumn, hrest, hsplit]
  simp only [byteLength_append]
  omega

/-! ## Runs -/

/-- The runs of the pieces after some others start where those end. -/
theorem segmentsOf_append (masked source : Nat) (before after : List Piece) :
    segmentsOf masked source (before ++ after) =
      segmentsOf masked source before ++
        segmentsOf (masked + byteLength (before.flatMap Piece.masked))
          (source + byteLength (before.flatMap Piece.source)) after := by
  induction before generalizing masked source with
  | nil => simp [segmentsOf]
  | cons piece before ih =>
    simp only [List.cons_append, segmentsOf, ih, List.flatMap_cons, byteLength_append,
      Nat.add_assoc]

/-- A run starts no earlier than the first one, in the masked text and in the source. -/
theorem le_of_mem_segmentsOf {masked source : Nat} {pieces : List Piece} {segment : Segment}
    (h : segment ∈ segmentsOf masked source pieces) :
    masked ≤ segment.masked ∧ source ≤ segment.source := by
  induction pieces generalizing masked source with
  | nil => simp [segmentsOf] at h
  | cons piece pieces ih =>
    rcases List.mem_cons.mp h with rfl | hlater
    · exact ⟨Nat.le_refl masked, Nat.le_refl source⟩
    · have := ih hlater
      omega

/-- An offset is led back by the last run that starts at it or before. -/
theorem sourceOffset_eq {m : Masked} {earlier later : List Segment} {segment : Segment}
    {offset : Nat} (hsegments : m.segments = earlier ++ segment :: later)
    (hstart : segment.masked ≤ offset) (hlater : ∀ other ∈ later, offset < other.masked) :
    m.sourceOffset offset = segment.source + min (offset - segment.masked) segment.length := by
  have hnone : later.reverse.find? (·.masked ≤ offset) = none := by
    rw [List.find?_eq_none]
    intro other hother
    have := hlater other (List.mem_reverse.mp hother)
    simpa using this
  rw [sourceOffset, hsegments]
  simp [List.find?_append, hnone, hstart]

/-- An offset in the marker of a comment, or among the line feeds after it, leads to the start of
the comment. -/
theorem sourceOffset_comment {before after : List Piece} {comment : Piece} {offset : Nat}
    (hcomment : comment.IsComment) (hstart : byteLength (before.flatMap Piece.masked) ≤ offset)
    (hend : offset < byteLength (before.flatMap Piece.masked) + byteLength comment.masked) :
    (ofPieces (before ++ comment :: after)).sourceOffset offset =
      byteLength (before.flatMap Piece.source) := by
  have hsegments : (ofPieces (before ++ comment :: after)).segments =
      segmentsOf 0 0 before ++
        ⟨byteLength (before.flatMap Piece.masked), byteLength (before.flatMap Piece.source), 0⟩ ::
          segmentsOf (byteLength (before.flatMap Piece.masked) + byteLength comment.masked)
            (byteLength (before.flatMap Piece.source) + byteLength comment.source) after := by
    cases comment with
    | code text => exact hcomment.elim
    | line text | block text => simp [ofPieces, segmentsOf_append, segmentsOf]
  rw [sourceOffset_eq hsegments hstart]
  · simp
  · intro other hother
    have := (le_of_mem_segmentsOf hother).1
    omega

end Masked

namespace Piece

/-- A comment follows on code, or nothing. -/
theorem Cut.after_code {pieces : List Piece} (h : Cut pieces) {before after : List Piece}
    {text : List Char} (hpieces : pieces = before ++ .code text :: after) :
    after = [] ∨ ∃ comment rest, after = comment :: rest ∧ comment.IsComment := by
  induction h generalizing before with
  | code _ =>
    cases before with
    | nil => exact Or.inl (by simpa using (List.cons.inj hpieces).2.symm)
    | cons piece before => simp at hpieces
  | @line _ comment rest _ _ _ _ ih | @block _ comment rest _ _ _ ih =>
    match before with
    | [] => exact Or.inr ⟨_, rest, (List.cons.inj hpieces).2.symm, trivial⟩
    | [_] => simp at hpieces
    | _ :: _ :: before =>
      obtain ⟨-, -, hrest⟩ : _ ∧ _ ∧ rest = before ++ .code text :: after := by simpa using hpieces
      exact ih hrest

/-- The marker of a comment is not empty. -/
theorem byteLength_masked_pos {comment : Piece} (h : comment.IsComment) :
    0 < byteLength comment.masked := by
  have hmarker : ∀ kind text, 0 < byteLength (marker kind text) := by
    intro kind text
    rw [marker, byteLength_append]
    exact Nat.add_pos_right _ (by decide)
  cases comment with
  | code text => exact h.elim
  | line text => exact hmarker _ _
  | block text =>
    rw [masked, byteLength_append]
    exact Nat.add_pos_left (hmarker _ _) _

end Piece

namespace Masked

/-- An offset in code, or at its end, leads to the same character of the source. -/
theorem sourceOffset_code {before after : List Piece} {text rest : List Char}
    (hcut : Piece.Cut (before ++ .code (text ++ rest) :: after)) :
    (ofPieces (before ++ .code (text ++ rest) :: after)).sourceOffset
        (byteLength (before.flatMap Piece.masked ++ text)) =
      byteLength (before.flatMap Piece.source ++ text) := by
  have hsegments : (ofPieces (before ++ .code (text ++ rest) :: after)).segments =
      segmentsOf 0 0 before ++
        ⟨byteLength (before.flatMap Piece.masked), byteLength (before.flatMap Piece.source),
            byteLength (text ++ rest)⟩ ::
          segmentsOf (byteLength (before.flatMap Piece.masked) + byteLength (text ++ rest))
            (byteLength (before.flatMap Piece.source) + byteLength (text ++ rest)) after := by
    simp [ofPieces, segmentsOf_append, segmentsOf]
  -- the run of the code leads the offset back, unless a comment starts at that offset
  by_cases hinside : rest = [] ∧ after ≠ []
  · obtain ⟨rfl, hafter⟩ := hinside
    rcases hcut.after_code rfl with hnone | ⟨comment, more, rfl, hcomment⟩
    · exact absurd hnone hafter
    · have hpos := Piece.byteLength_masked_pos hcomment
      have hfound := @sourceOffset_comment (before ++ [.code text]) more comment
        (byteLength (before.flatMap Piece.masked ++ text)) hcomment (by simp) (by simp [hpos])
      simpa using hfound
  · rw [sourceOffset_eq hsegments (by simp only [byteLength_append]; omega)]
    · simp only [byteLength_append]
      omega
    · intro other hother
      have hle := (le_of_mem_segmentsOf hother).1
      have hrest : rest ≠ [] := by
        rintro rfl
        have hafter : after = [] := by simpa using hinside
        subst hafter
        simp [segmentsOf] at hother
      have hpos : 0 < byteLength rest :=
        Nat.lt_of_lt_of_le (List.length_pos_iff.mpr hrest) (length_le_byteLength rest)
      simp only [byteLength_append] at hle ⊢
      omega

end Masked

/-! ## All coordinates -/

/-- A place in the code of a text that is cut into pieces: `source` stands before it in the text,
and `copy` in the masked text. -/
def Piece.InCode (pieces : List Piece) (source copy : List Char) : Prop :=
  ∃ before text rest after, pieces = before ++ .code (text ++ rest) :: after ∧
    source = before.flatMap Piece.source ++ text ∧ copy = before.flatMap Piece.masked ++ text

/-- The end of the text is in code. -/
theorem Piece.Cut.inCode_end {pieces : List Piece} (h : Cut pieces) :
    InCode pieces (pieces.flatMap source) (pieces.flatMap masked) := by
  obtain ⟨before, text, rfl⟩ := h.exists_last
  exact ⟨before, text, [], [], by simp, by simp, by simp⟩

namespace SourceFile

/-- The number of characters before a place in code. -/
theorem position_eq {name text : String} {m : Masked} (h : Masked.ofSource text.toList = .ok m)
    {place : Pos} (hplace : 0 < place.line) {before after : List Char}
    (htext : text.toList = before ++ after)
    (hoffset : m.sourceOffset (m.offset place) = byteLength before) :
    (ofText name text).position place = before.length := by
  have hfile : (ofText name text).masked = some m := by simp [ofText, h, Except.toOption]
  rw [position, if_neg (by omega), offsetOf, hfile]
  simp only [hoffset, charAt]
  change charsWithin (byteLength before) text.toList = before.length
  rw [htext, charsWithin_byteLength]

end SourceFile

/-- All coordinates of a source whose comments are masked agree.  It is cut at its comments, and at
every place in code, its end included, the line and column in the masked text lead to the offset
there, that offset leads to the offset in the source, the line is that of the source, and the number
of characters before the place is that of the source.  All offsets of a marker and of the line feeds
after it lead to the start of the comment. -/
theorem coordinates_agree (name : String) {text : String} {m : Masked}
    (h : Masked.ofSource text.toList = .ok m) :
    ∃ pieces, Piece.Cut pieces ∧ pieces.flatMap Piece.source = text.toList ∧
      pieces.flatMap Piece.masked = m.text ∧ Piece.InCode pieces text.toList m.text ∧
      (∀ source copy, Piece.InCode pieces source copy →
        m.offset (Pos.start.after copy) = byteLength copy ∧
        m.sourceOffset (byteLength copy) = byteLength source ∧
        (Pos.start.after copy).line = (Pos.start.after source).line ∧
        (SourceFile.ofText name text).position (Pos.start.after copy) = source.length) ∧
      ∀ before comment after offset, pieces = before ++ comment :: after → comment.IsComment →
        byteLength (before.flatMap Piece.masked) ≤ offset →
        offset < byteLength (before.flatMap Piece.masked ++ comment.masked) →
        m.sourceOffset offset = byteLength (before.flatMap Piece.source) := by
  obtain ⟨pieces, hsplit, rfl⟩ := map_eq_ok.mp h
  obtain ⟨hcut, hsource⟩ := Piece.split_eq_ok_iff.mp hsplit
  refine ⟨pieces, hcut, hsource, rfl, ?_, ?_, ?_⟩
  · rw [← hsource]
    exact hcut.inCode_end
  · rintro source copy ⟨before, code, rest, after, rfl, rfl, rfl⟩
    have hcopy : (Masked.ofPieces (before ++ .code (code ++ rest) :: after)).text =
        (before.flatMap Piece.masked ++ code) ++ (rest ++ after.flatMap Piece.masked) := by
      simp [Masked.ofPieces]
    have htext : text.toList =
        (before.flatMap Piece.source ++ code) ++ (rest ++ after.flatMap Piece.source) := by
      simp [← hsource]
    have hoffset := Masked.offset_after hcopy
    have hback := Masked.sourceOffset_code hcut
    have hlines : (before.flatMap Piece.masked).count '\n' =
        (before.flatMap Piece.source).count '\n' :=
      Piece.count_newline_flatMap fun line hline =>
        hcut.newline_not_mem (List.mem_append_left _ hline)
    refine ⟨hoffset, hback, ?_, ?_⟩
    · simp only [line_after, List.count_append, hlines]
    · refine SourceFile.position_eq h ?_ htext (by rw [hoffset, hback])
      rw [line_after]
      exact Nat.add_pos_left Nat.one_pos _
  · rintro before comment after offset rfl hcomment hstart hend
    exact Masked.sourceOffset_comment hcomment hstart (by simpa [byteLength_append] using hend)

/-- A plus sign after a block comment of two lines, and the line feed that stands for the second of
them: places, offsets and characters. -/
theorem coordinates_after_block :
    ∃ m, Masked.ofSource "é/*ü\n*/+//d".toList = .ok m ∧ m.offset ⟨2, 0⟩ = 20 ∧
      m.sourceOffset 20 = 9 ∧
      (SourceFile.ofText "test.fs" "é/*ü\n*/+//d").position ⟨2, 0⟩ = 7 ∧ m.sourceOffset 19 = 2 := by
  have hsplit : Piece.split 0 "é/*ü\n*/+//d".toList =
      .ok [.code ['é'], .block ['ü', '\n'], .code ['+'], .line ['d'], .code []] := by
    decide +kernel
  have hmasked : Masked.ofSource "é/*ü\n*/+//d".toList = .ok (.ofPieces _) :=
    map_eq_ok.mpr ⟨_, hsplit, rfl⟩
  refine ⟨_, hmasked, ?_⟩
  obtain ⟨pieces, hcut, hsource, -, -, hcode, hcomment⟩ := coordinates_agree "test.fs" hmasked
  have hpieces := (@Piece.split_eq_ok_iff 0).mpr ⟨hcut, hsource⟩
  rw [hsplit] at hpieces
  cases hpieces
  have hcopy : [Piece.code ['é'], .block ['ü', '\n']].flatMap Piece.masked =
      "é#[block = \"ü\\n\"]\n".toList := by
    decide +kernel
  obtain ⟨hoffset, hback, -, hposition⟩ := hcode "é/*ü\n*/".toList "é#[block = \"ü\\n\"]\n".toList
    ⟨[.code ['é'], .block ['ü', '\n']], [], ['+'], [.line ['d'], .code []], rfl, rfl,
      by simp [hcopy]⟩
  have hfeed := hcomment [.code ['é']] (.block ['ü', '\n']) [.code ['+'], .line ['d'], .code []] 19
    rfl trivial (by decide) (by decide +kernel)
  exact ⟨hoffset, hback, hposition, hfeed⟩

end ShaderLang
