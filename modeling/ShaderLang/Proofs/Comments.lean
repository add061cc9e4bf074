import Mathlib.Data.List.Infix
import ShaderLang.Masked
import ShaderLang.Proofs.Stretch
import ShaderLang.Text.Quoted.Lemmas

/-!
# Where comments stand

A text is cut into code and comments from the left.  `Piece.Cut` says which pieces are right without
telling how they are found: no comment starts in code, a line comment reaches to the end of its
line, and a block comment ends at the first closing mark.  `Piece.Unclosed` says in the same way
where a block comment starts that does not end.

Main results:

- Theorem `comment_induct`: induction on a text by its first comment.
- Theorem `exists_cut_or_unclosed`: a text can be cut at its comments, or one of them is not closed.
- Theorem `split_of_unclosed`: a comment that is not closed is found where it starts.
- Theorem `split_eq_ok_iff`: a text is split into just those pieces that are cut at its comments.
- Theorem `count_newline_flatMap`: masking keeps the number of lines.
-/

namespace ShaderLang

open Text

namespace Piece

/-! ## The grammar of comments -/

/-- A comment starts somewhere in a text. -/
def Opens (cs : List Char) : Prop :=
  ['/', '/'] <:+: cs ∨ ['/', '*'] <:+: cs

/-- Pieces are cut at the comments of their text.  The slash of a comment counts when it is asked
whether a comment starts in the code before it. -/
inductive Cut : List Piece → Prop where
  | code {text : List Char} (hcode : ¬ Opens text) : Cut [.code text]
  | line {text comment : List Char} {rest : List Piece} (hcode : ¬ Opens (text ++ ['/']))
      (hline : '\n' ∉ comment) (hend : ∀ c ∈ (rest.flatMap source).head?, c = '\n')
      (hrest : Cut rest) : Cut (.code text :: .line comment :: rest)
  | block {text comment : List Char} {rest : List Piece} (hcode : ¬ Opens (text ++ ['/']))
      (hblock : ¬ ['*', '/'] <:+: comment) (hrest : Cut rest) :
      Cut (.code text :: .block comment :: rest)

/-- After `start` a block comment starts in a text that is not closed.  What stands before the star
of its opening mark is cut at its comments, so no comment starts earlier and none is still open. -/
def Unclosed (start cs : List Char) : Prop :=
  ∃ before text rest, start = before.flatMap source ++ text ∧ cs = start ++ '/' :: '*' :: rest ∧
    Cut (before ++ [.code (text ++ ['/'])]) ∧ ¬ ['*', '/'] <:+: rest

/-- A piece is a comment. -/
def IsComment : Piece → Prop
  | code _ => False
  | line _ | block _ => True

@[simp]
theorem source_code (text : List Char) : (code text).source = text := rfl

@[simp]
theorem masked_code (text : List Char) : (code text).masked = text := rfl

/-- The slashes of a line comment take two bytes. -/
theorem byteLength_source_line (text : List Char) :
    byteLength (line text).source = 2 + byteLength text := by
  change 1 + (1 + byteLength text) = 2 + byteLength text
  omega

/-- The marks of a block comment take four bytes. -/
theorem byteLength_source_block (text : List Char) :
    byteLength (block text).source = 4 + byteLength text := by
  change 1 + (1 + byteLength (text ++ ['*', '/'])) = 4 + byteLength text
  rw [byteLength_append]
  change 1 + (1 + (byteLength text + 2)) = 4 + byteLength text
  omega

/-- A comment that starts in a text starts there before a slash too. -/
theorem Opens.append_slash {text : List Char} (h : Opens text) : Opens (text ++ ['/']) :=
  h.imp (·.trans (List.infix_append' [] text ['/'])) (·.trans (List.infix_append' [] text ['/']))

/-- What the text of a piece is without: the start of a comment in code, a line feed in a line
comment, and a closing mark in a block comment. -/
def IsWhole : Piece → Prop
  | code text => ¬ Opens text
  | line text => '\n' ∉ text
  | block text => ¬ ['*', '/'] <:+: text

/-- Pieces that are cut at the comments of their text are whole. -/
theorem Cut.isWhole {pieces : List Piece} (h : Cut pieces) : ∀ piece ∈ pieces, piece.IsWhole := by
  induction h with
  | code hcode => exact List.forall_mem_singleton.mpr hcode
  | line hcode hline _ _ ih =>
    refine List.forall_mem_cons.mpr ⟨fun hopens => hcode hopens.append_slash, ?_⟩
    exact List.forall_mem_cons.mpr ⟨hline, ih⟩
  | block hcode hblock _ ih =>
    refine List.forall_mem_cons.mpr ⟨fun hopens => hcode hopens.append_slash, ?_⟩
    exact List.forall_mem_cons.mpr ⟨hblock, ih⟩

/-- The last piece is code. -/
theorem Cut.exists_last {pieces : List Piece} (h : Cut pieces) :
    ∃ before text, pieces = before ++ [.code text] := by
  induction h with
  | @code text _ => exact ⟨[], text, rfl⟩
  | line _ _ _ _ ih | block _ _ _ ih =>
    obtain ⟨before, text, rfl⟩ := ih
    exact ⟨_ :: _ :: before, text, rfl⟩

/-! ## Finding the comments -/

/-- A comment starts at the first character of a text or after it. -/
theorem opens_cons_iff {c : Char} {cs : List Char} :
    Opens (c :: cs) ↔ (c = '/' ∧ (cs.head? = some '/' ∨ cs.head? = some '*')) ∨ Opens cs := by
  have hpair : ∀ d : Char, ['/', d] <+: c :: cs ↔ c = '/' ∧ cs.head? = some d := by
    intro d
    cases cs with
    | nil => simp
    | cons e cs => simp [eq_comm]
  simp only [Opens, List.infix_cons_iff, hpair]
  tauto

/-- The first character is code if no comment starts there. -/
theorem codeBefore_cons {c : Char} {cs : List Char}
    (h : ¬ (c = '/' ∧ (cs.head? = some '/' ∨ cs.head? = some '*'))) :
    codeBefore (c :: cs) = c :: codeBefore cs := by
  rw [codeBefore]
  · rintro rest rfl rfl
    simp at h
  · rintro rest rfl rfl
    simp at h

/-- Where no comment starts all is code. -/
theorem codeBefore_of_not_opens {cs : List Char} (h : ¬ Opens cs) : codeBefore cs = cs := by
  induction cs with
  | nil => rfl
  | cons c cs ih =>
    rw [opens_cons_iff, not_or] at h
    rw [codeBefore_cons h.1, ih h.2]

/-- The code before the first comment is all that stands before it. -/
theorem codeBefore_append {cs rest : List Char} {mark : Char} (hmark : mark = '/' ∨ mark = '*')
    (h : ¬ Opens (cs ++ ['/'])) : codeBefore (cs ++ '/' :: mark :: rest) = cs := by
  induction cs with
  | nil => rcases hmark with rfl | rfl <;> rfl
  | cons c cs ih =>
    rw [List.cons_append, opens_cons_iff, not_or] at h
    have hhead : (cs ++ '/' :: mark :: rest).head? = (cs ++ ['/']).head? := by
      cases cs <;> rfl
    rw [List.cons_append, codeBefore_cons (by rw [hhead]; exact h.1), ih h.2]

/-- No comment starts in the code before the first comment, also with the slash of that comment. -/
theorem not_opens_codeBefore (cs : List Char) :
    ¬ Opens (codeBefore cs ++ (cs.drop (codeBefore cs).length).take 1) := by
  have hnil : ¬ Opens [] := by simp [Opens]
  have hslash : ¬ Opens ['/'] := by simp [opens_cons_iff, hnil]
  fun_induction codeBefore cs with
  | case1 => exact hnil
  | case2 => exact hslash
  | case3 => exact hslash
  | case4 c cs hline hblock ih =>
    have hnext : ∀ d, (codeBefore cs ++ (cs.drop (codeBefore cs).length).take 1).head? = some d →
        ∃ rest, cs = d :: rest := by
      intro d hd
      obtain ⟨start, hstart⟩ := List.head?_eq_some_iff.mp hd
      have hcs := codeBefore_append_drop cs
      rw [← List.take_append_drop 1 (cs.drop _), ← List.append_assoc, hstart] at hcs
      exact ⟨_, hcs.symm⟩
    rw [List.cons_append, List.length_cons, List.drop_succ_cons, opens_cons_iff, not_or]
    refine ⟨?_, ih⟩
    rintro ⟨rfl, hslash | hstar⟩
    · obtain ⟨rest, hrest⟩ := hnext _ hslash
      exact hline rest rfl hrest
    · obtain ⟨rest, hrest⟩ := hnext _ hstar
      exact hblock rest rfl hrest

/-- No closing mark stands in the text of a block comment. -/
theorem not_closes_of_blockText? {cs text : List Char} (h : blockText? cs = some text) :
    ¬ ['*', '/'] <:+: text := by
  fun_induction blockText? cs generalizing text with
  | case1 => cases h
  | case2 rest =>
    cases h
    simp
  | case3 c cs hclose ih =>
    obtain ⟨tail, htail, rfl⟩ := Option.map_eq_some_iff.mp h
    rw [List.infix_cons_iff, not_or]
    refine ⟨?_, ih htail⟩
    rintro ⟨more, hmore⟩
    obtain ⟨rfl, rfl⟩ : '*' = c ∧ '/' :: more = tail := by simpa using hmore
    exact hclose _ rfl (eq_of_blockText? htail)

/-- A text without a closing mark is the text of the block comment that it fills. -/
theorem blockText?_append {text rest : List Char} (h : ¬ ['*', '/'] <:+: text) :
    blockText? (text ++ '*' :: '/' :: rest) = some text := by
  induction text with
  | nil => rfl
  | cons c text ih =>
    rw [List.infix_cons_iff, not_or] at h
    rw [List.cons_append, blockText?, ih h.2]
    · rfl
    · rintro more rfl hmore
      cases text with
      | nil => simp at hmore
      | cons d text =>
        obtain ⟨rfl, -⟩ : d = '/' ∧ text ++ '*' :: '/' :: rest = more := by simpa using hmore
        exact h.1 ⟨text, rfl⟩

/-- A block comment has no end exactly if no closing mark stands after its start. -/
theorem blockText?_eq_none_iff {cs : List Char} :
    blockText? cs = none ↔ ¬ ['*', '/'] <:+: cs := by
  fun_induction blockText? cs with
  | case1 => simp
  | case2 rest =>
    have hclosed : ['*', '/'] <:+: '*' :: '/' :: rest := ⟨[], rest, rfl⟩
    simp [hclosed]
  | case3 c cs hclose ih =>
    have hlater : ¬ ['*', '/'] <+: c :: cs := by
      rintro ⟨more, hmore⟩
      obtain ⟨rfl, rfl⟩ : '*' = c ∧ '/' :: more = cs := by simpa using hmore
      exact hclose more rfl rfl
    rw [Option.map_eq_none_iff, ih, List.infix_cons_iff, not_or]
    exact (and_iff_right hlater).symm

/-- Induction on a text from its end: code alone, a line or block comment with the code before it,
or a block comment that is not closed. -/
theorem comment_induct {motive : List Char → Prop}
    (code : ∀ text, ¬ Opens text → motive text)
    (line : ∀ text comment tail, ¬ Opens (text ++ ['/']) → '\n' ∉ comment →
      (∀ c ∈ tail.head?, c = '\n') → motive tail →
        motive (text ++ '/' :: '/' :: (comment ++ tail)))
    (block : ∀ text comment tail, ¬ Opens (text ++ ['/']) → ¬ ['*', '/'] <:+: comment →
      motive tail → motive (text ++ '/' :: '*' :: (comment ++ '*' :: '/' :: tail)))
    (unclosed : ∀ text rest, ¬ Opens (text ++ ['/']) → ¬ ['*', '/'] <:+: rest →
      motive (text ++ '/' :: '*' :: rest)) (cs : List Char) : motive cs := by
  induction hlength : cs.length using Nat.strongRecOn generalizing cs with
  | ind n ih =>
    have hcode := not_opens_codeBefore cs
    have hwhole := codeBefore_append_drop cs
    have hshorter : ∀ {c d : Char} {rest : List Char} (k : Nat),
        cs.drop (codeBefore cs).length = c :: d :: rest → motive (rest.drop k) := by
      intro c d rest k hrest
      refine ih _ ?_ _ rfl
      have := congrArg List.length hrest
      simp only [List.length_drop, List.length_cons] at this ⊢
      omega
    -- what stands after the first code decides
    rcases drop_codeBefore cs with hnone | ⟨rest, hrest⟩ | ⟨rest, hrest⟩
    · rw [hnone, List.take_nil, List.append_nil] at hcode
      rw [hnone, List.append_nil] at hwhole
      exact hwhole ▸ code _ hcode
    · have hlater := hshorter (rest.takeWhile (· != '\n')).length hrest
      rw [hrest] at hcode hwhole
      rw [← List.prefix_iff_eq_append.1 (List.takeWhile_prefix (· != '\n') (l := rest))] at hwhole
      refine hwhole ▸ line _ _ _ hcode (fun hmem => ?_) (fun c hc => ?_) hlater
      · simpa using List.mem_takeWhile_imp hmem
      · simpa using stop_of_takeWhile hc
    · have hlater := fun k => hshorter k hrest
      rw [hrest] at hcode hwhole
      cases hblock : blockText? rest with
      | none => exact hwhole ▸ unclosed _ _ hcode (blockText?_eq_none_iff.mp hblock)
      | some comment =>
        rw [eq_of_blockText? hblock] at hwhole
        exact hwhole ▸ block _ _ _ hcode (not_closes_of_blockText? hblock) (hlater _)

/-! ## Splitting -/

/-- Where no comment starts a text is one piece of code. -/
theorem split_of_not_opens {text : List Char} (h : ¬ Opens text) (offset : Nat) :
    split offset text = .ok [.code text] := by
  have hbefore := codeBefore_of_not_opens h
  rw [split]
  split
  · rename_i hdrop
    simp [hbefore] at hdrop
  · rename_i hdrop
    simp [hbefore] at hdrop
  · rw [hbefore]

/-- A line comment is split off with the code before it. -/
theorem split_line {text comment tail : List Char} (hcode : ¬ Opens (text ++ ['/']))
    (hline : '\n' ∉ comment) (hend : ∀ c ∈ tail.head?, c = '\n') (offset : Nat) :
    split offset (text ++ '/' :: '/' :: (comment ++ tail)) =
      (split (offset + byteLength text + 2 + byteLength comment) tail).map
        (.code text :: .line comment :: ·) := by
  have hbefore := @codeBefore_append text (comment ++ tail) '/' (.inl rfl) hcode
  have htake : (comment ++ tail).takeWhile (· != '\n') = comment :=
    takeWhile_append_stop (fun c hc => by simpa using ne_of_mem_of_not_mem hc hline)
      fun c hc => by simpa using hend c hc
  rw [split]
  split
  · rename_i rest hdrop
    rw [hbefore, List.drop_left] at hdrop
    obtain rfl : comment ++ tail = rest := by simpa using hdrop
    simp only [hbefore, htake, List.drop_left]
    cases split (offset + byteLength text + 2 + byteLength comment) tail with
    | ok pieces => rfl
    | error unclosed => rfl
  · rename_i hdrop
    simp [hbefore] at hdrop
  · rename_i hdrop _
    simp [hbefore] at hdrop

/-- After the opening mark of a block comment all hangs on where its text ends. -/
theorem split_opened {text rest : List Char} (hcode : ¬ Opens (text ++ ['/'])) (offset : Nat) :
    split offset (text ++ '/' :: '*' :: rest) =
      match blockText? rest with
      | none => .error (offset + byteLength text)
      | some comment =>
        (split (offset + byteLength text + 4 + byteLength comment)
          (rest.drop (comment.length + 2))).map (.code text :: .block comment :: ·) := by
  have hbefore := @codeBefore_append text rest '*' (.inr rfl) hcode
  rw [split]
  split
  · rename_i hdrop
    simp [hbefore] at hdrop
  · rename_i tail hdrop
    rw [hbefore, List.drop_left] at hdrop
    obtain rfl : rest = tail := by simpa using hdrop
    simp only [hbefore]
    cases blockText? rest with
    | none => rfl
    | some comment =>
      dsimp only
      cases split (offset + byteLength text + 4 + byteLength comment)
        (rest.drop (comment.length + 2)) with
      | ok pieces => rfl
      | error unclosed => rfl
  · rename_i hdrop
    simp [hbefore] at hdrop

/-- The pieces before the last code are split off, whatever follows that code. -/
theorem split_append {before : List Piece} {last tail : List Char}
    (h : Cut (before ++ [.code last])) (htail : tail.head? = last.head?) (offset : Nat) :
    split offset (before.flatMap source ++ tail) =
      (split (offset + byteLength (before.flatMap source)) tail).map (before ++ ·) := by
  have hnil : ∀ x : Except Nat (List Piece), x.map ([] ++ ·) = x := by
    rintro (unclosed | pieces) <;> rfl
  have hcons : ∀ (x : Except Nat (List Piece)) (first second : Piece)
      (before : List Piece), (x.map (before ++ ·)).map (first :: second :: ·) =
        x.map (first :: second :: before ++ ·) := by
    rintro (unclosed | pieces) <;> intros <;> rfl
  generalize hall : before ++ [.code last] = pieces at h
  -- a comment and the code before it are split off at a time
  induction h generalizing before offset with
  | code _ =>
    cases before with
    | nil => exact (hnil _).symm
    | cons piece before => simp at hall
  | @line text comment rest hcode hline hend _ ih =>
    rcases before with _ | ⟨first, _ | ⟨second, before⟩⟩
    · simp at hall
    · simp at hall
    · obtain ⟨rfl, rfl, rfl⟩ : first = .code text ∧ second = .line comment ∧
          before ++ [.code last] = rest := by simpa using hall
      have hnext : ∀ c ∈ (before.flatMap source ++ tail).head?, c = '\n' := by
        intro c hc
        refine hend c ?_
        rw [List.head?_append, htail] at hc
        simpa [List.head?_append, source] using hc
      have hsplit := split_line hcode hline hnext offset
      rw [ih _ rfl] at hsplit
      have hlength : offset + byteLength ((code text :: line comment :: before).flatMap source) =
          offset + byteLength text + 2 + byteLength comment +
            byteLength (before.flatMap source) := by
        simp only [List.flatMap_cons, byteLength_append, byteLength_source_line, source_code]
        omega
      rw [hlength, ← hcons, ← hsplit]
      simp [source]
  | @block text comment rest hcode hblock _ ih =>
    rcases before with _ | ⟨first, _ | ⟨second, before⟩⟩
    · simp at hall
    · simp at hall
    · obtain ⟨rfl, rfl, rfl⟩ : first = .code text ∧ second = .block comment ∧
          before ++ [.code last] = rest := by simpa using hall
      have hskip : (comment ++ '*' :: '/' :: (before.flatMap source ++ tail)).drop
          (comment.length + 2) = before.flatMap source ++ tail := by
        rw [← List.drop_drop, List.drop_left]
        rfl
      have hsplit := @split_opened text (comment ++ '*' :: '/' :: (before.flatMap source ++ tail))
        hcode offset
      rw [blockText?_append hblock] at hsplit
      simp only [hskip, ih _ rfl] at hsplit
      have hlength : offset + byteLength ((code text :: block comment :: before).flatMap source) =
          offset + byteLength text + 4 + byteLength comment +
            byteLength (before.flatMap source) := by
        simp only [List.flatMap_cons, byteLength_append, byteLength_source_block, source_code]
        omega
      rw [hlength, ← hcons, ← hsplit]
      simp [source]

/-- Pieces that are cut at the comments of their text are what `split` gives. -/
theorem split_of_cut {pieces : List Piece} (h : Cut pieces) (offset : Nat) :
    split offset (pieces.flatMap source) = .ok pieces := by
  obtain ⟨before, text, rfl⟩ := h.exists_last
  have hcode : ¬ Opens text := h.isWhole (.code text) (by simp)
  have hsplit := split_append h (rfl : text.head? = text.head?) offset
  rw [split_of_not_opens hcode] at hsplit
  simpa [source, Except.map] using hsplit

/-- A comment that is not closed is found. -/
theorem split_of_unclosed {start cs : List Char} (h : Unclosed start cs) (offset : Nat) :
    split offset cs = .error (offset + byteLength start) := by
  obtain ⟨before, text, rest, rfl, rfl, hcut, hopen⟩ := h
  have hcode : ¬ Opens (text ++ ['/']) := hcut.isWhole (.code (text ++ ['/'])) (by simp)
  have hhead : (text ++ '/' :: '*' :: rest).head? = (text ++ ['/']).head? := by
    cases text <;> rfl
  rw [List.append_assoc, split_append hcut hhead, split_opened hcode,
    blockText?_eq_none_iff.mpr hopen, byteLength_append, Nat.add_assoc]
  rfl

/-- A comment that is not closed is not closed after a line comment either. -/
theorem Unclosed.after_line {text comment start cs : List Char} (h : Unclosed start cs)
    (hcode : ¬ Opens (text ++ ['/'])) (hline : '\n' ∉ comment)
    (hend : ∀ c ∈ cs.head?, c = '\n') :
    Unclosed (text ++ '/' :: '/' :: (comment ++ start))
      (text ++ '/' :: '/' :: (comment ++ cs)) := by
  obtain ⟨before, last, rest, rfl, rfl, hcut, hopen⟩ := h
  refine ⟨code text :: line comment :: before, last, rest, by simp [source], by simp,
    .line hcode hline ?_ hcut, hopen⟩
  intro c hc
  refine hend c ?_
  cases last with
  | nil => simpa [List.head?_append, source] using hc
  | cons d last => simpa [List.head?_append, source] using hc

/-- A comment that is not closed is not closed after a block comment either. -/
theorem Unclosed.after_block {text comment start cs : List Char} (h : Unclosed start cs)
    (hcode : ¬ Opens (text ++ ['/'])) (hblock : ¬ ['*', '/'] <:+: comment) :
    Unclosed (text ++ '/' :: '*' :: (comment ++ '*' :: '/' :: start))
      (text ++ '/' :: '*' :: (comment ++ '*' :: '/' :: cs)) := by
  obtain ⟨before, last, rest, rfl, rfl, hcut, hopen⟩ := h
  exact ⟨code text :: block comment :: before, last, rest, by simp [source], by simp,
    .block hcode hblock hcut, hopen⟩

/-- Every text is cut at its comments, or has a comment that is not closed. -/
theorem exists_cut_or_unclosed (cs : List Char) :
    (∃ pieces, Cut pieces ∧ pieces.flatMap source = cs) ∨ ∃ start, Unclosed start cs := by
  induction cs using comment_induct with
  | code text hcode => exact .inl ⟨[.code text], .code hcode, by simp⟩
  | line text comment tail hcode hline hend ih =>
    rcases ih with ⟨pieces, hcut, rfl⟩ | ⟨start, hopen⟩
    · exact .inl ⟨_, .line hcode hline hend hcut, by simp [source]⟩
    · exact .inr ⟨_, hopen.after_line hcode hline hend⟩
  | block text comment tail hcode hblock ih =>
    rcases ih with ⟨pieces, hcut, rfl⟩ | ⟨start, hopen⟩
    · exact .inl ⟨_, .block hcode hblock hcut, by simp [source]⟩
    · exact .inr ⟨_, hopen.after_block hcode hblock⟩
  | unclosed text rest hcode hopen =>
    exact .inr ⟨text, [], text, rest, rfl, rfl, .code hcode, hopen⟩

/-- A text is split into just those pieces that are cut at its comments. -/
theorem split_eq_ok_iff {offset : Nat} {cs : List Char} {pieces : List Piece} :
    split offset cs = .ok pieces ↔ Cut pieces ∧ pieces.flatMap source = cs := by
  constructor
  · intro h
    rcases exists_cut_or_unclosed cs with ⟨found, hcut, rfl⟩ | ⟨start, hopen⟩
    · rw [split_of_cut hcut] at h
      cases h
      exact ⟨hcut, rfl⟩
    · rw [split_of_unclosed hopen] at h
      cases h
  · rintro ⟨hcut, rfl⟩
    exact split_of_cut hcut offset

/-! ## Lines of a masked text -/

/-- What stands for a character in a quoted text is on one line. -/
theorem newline_not_mem_quoteChar (c : Char) : '\n' ∉ quoteChar c := by
  unfold quoteChar
  iterate 6
    split
    · decide
  split
  · intro hmem
    simp only [List.mem_append, List.mem_cons, List.not_mem_nil, or_false] at hmem
    rcases hmem with (hopen | hdigit) | hclose
    · revert hopen
      decide
    · exact absurd (isHexDigit_of_mem_hexDigits hdigit) (by decide)
    · revert hclose
      decide
  · rename_i hbreak _ _ _ _
    simpa using Ne.symm hbreak

/-- A marker is on one line. -/
theorem newline_not_mem_marker {kind : String} (hkind : '\n' ∉ kind.toList) (text : List Char) :
    '\n' ∉ marker kind text := by
  intro hmem
  simp only [marker, quote, String.toList_append, List.mem_append, List.mem_cons, List.mem_flatMap,
    List.not_mem_nil, or_false] at hmem
  rcases hmem with (((hopen | hname) | hsign) | (hquote | ⟨c, -, hchar⟩) | hquote) | hclose
  · exact absurd hopen (by decide)
  · exact hkind hname
  · exact absurd hsign (by decide)
  · exact absurd hquote (by decide)
  · exact newline_not_mem_quoteChar c hchar
  · exact absurd hquote (by decide)
  · exact absurd hclose (by decide)

/-- No line feed stands in a line comment. -/
theorem Cut.newline_not_mem {pieces : List Piece} (h : Cut pieces) {text : List Char}
    (hmem : .line text ∈ pieces) : '\n' ∉ text :=
  h.isWhole (.line text) hmem

/-- A piece has as many lines when it is masked, if it is no line comment with more than one. -/
theorem count_newline_masked {piece : Piece} (h : ∀ text, .line text = piece → '\n' ∉ text) :
    piece.masked.count '\n' = piece.source.count '\n' := by
  cases piece with
  | code text => rfl
  | line text =>
    have hmarker := @newline_not_mem_marker "line" (by decide) text
    have htext := h text rfl
    simp [masked, source, List.count_eq_zero_of_not_mem hmarker,
      List.count_eq_zero_of_not_mem htext]
  | block text =>
    have hmarker := @newline_not_mem_marker "block" (by decide) text
    have hkept : (text.filter (· == '\n')).count '\n' = text.count '\n' :=
      List.count_filter (by rfl)
    simp [masked, source, List.count_append, List.count_eq_zero_of_not_mem hmarker, hkept]

/-- Pieces have as many lines when they are masked, if no line comment has more than one. -/
theorem count_newline_flatMap {pieces : List Piece}
    (h : ∀ text, .line text ∈ pieces → '\n' ∉ text) :
    (pieces.flatMap masked).count '\n' = (pieces.flatMap source).count '\n' := by
  induction pieces with
  | nil => rfl
  | cons piece pieces ih =>
    have hfirst := @count_newline_masked piece fun text htext => h text (htext ▸ List.mem_cons_self)
    have hrest := ih fun text htext => h text (List.mem_cons_of_mem piece htext)
    simp only [List.flatMap_cons, List.count_append, hfirst, hrest]

end Piece

end ShaderLang
