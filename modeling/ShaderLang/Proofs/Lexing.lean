import ShaderLang.Grammar.Numeral
import ShaderLang.Proofs.Stretch
import ShaderLang.Text.Blank
import ShaderLang.Token.Tree

/-!
# Single tokens of a text

What the first item of a text is, where the text starts with a name, a whole number, a punctuation
mark, a blank or a delimiter.  A name or number reaches up to a character that cannot go on with it;
`Ends` says what may follow either of them.

Main results:

- Theorem `literal?_eq_number`: where no quotes open, a literal is a number.
- Theorem `item_identifier`: an identifier is read as a name.
- Theorem `item_digits`: a whole number is read as a literal, also before the point of a field.
- Theorem `item_mark`: a punctuation mark that starts no comment is read as one.
- Theorem `ofText_digits`: decimal digits spell a whole number.
-/

namespace ShaderLang

namespace Text

/-! ## Characters -/

/-- A character of a table is one of the code points that the table lists. -/
theorem mem_of_inRanges {table : List (Nat × Nat)} {c : Char} (h : inRanges table c = true) :
    c.toNat ∈ table.flatMap fun range => List.range' range.1 (range.2 + 1 - range.1) := by
  obtain ⟨range, hrange, hwithin⟩ := List.any_eq_true.mp h
  rw [Bool.and_eq_true, decide_eq_true_iff, decide_eq_true_iff] at hwithin
  refine List.mem_flatMap.mpr ⟨range, hrange, ?_⟩
  rw [List.mem_range'_1]
  omega

/-- A blank belongs to no identifier. -/
theorem isBlank_eq_false {c : Char} (h : isIdentContinue c = true) : isBlank c = false := by
  have hblanks : ∀ n ∈ (whiteSpaceRanges.flatMap fun range =>
      List.range' range.1 (range.2 + 1 - range.1)) ++ [0x200E, 0x200F],
      isIdentContinue (Char.ofNat n) = false := by decide +kernel
  by_contra hblank
  rw [Bool.not_eq_false] at hblank
  have hmem : c.toNat ∈ (whiteSpaceRanges.flatMap fun range =>
      List.range' range.1 (range.2 + 1 - range.1)) ++ [0x200E, 0x200F] := by
    rw [isBlank, Bool.or_eq_true, Bool.or_eq_true, beq_iff_eq, beq_iff_eq] at hblank
    rcases hblank with (hspace | hleft) | hright
    · exact List.mem_append_left _ (mem_of_inRanges hspace)
    · simp [hleft]
    · simp [hright]
  have hcontinue := hblanks _ hmem
  rw [Char.ofNat_toNat, h] at hcontinue
  cases hcontinue

/-- A character that starts an identifier may also go on with one. -/
theorem isIdentContinue_of_isIdentStart {c : Char} (h : isIdentStart c = true) :
    isIdentContinue c = true := by
  unfold isIdentStart at h
  unfold isIdentContinue
  split at h
  · rename_i hascii
    rw [if_pos hascii, Char.isAlphanum]
    grind
  · rename_i hascii
    rw [if_neg hascii, h, Bool.true_or]

/-- The code points of the digits. -/
theorem toNat_of_isDigit {c : Char} (h : c.isDigit = true) : 48 ≤ c.toNat ∧ c.toNat ≤ 57 := by
  simpa [Char.isDigit, UInt32.le_iff_toNat_le] using h

/-- A number is written with digits. -/
theorem isDigit_of_toDigits (n : Nat) : ∀ c ∈ Nat.toDigits 10 n, c.isDigit = true :=
  fun _ hc => Nat.isDigit_of_mem_toDigits (by decide) (by decide) hc

/-- An identifier goes on with digits but does not start with one. -/
theorem isIdentContinue_of_isDigit {c : Char} (h : c.isDigit = true) :
    isIdentContinue c = true ∧ isIdentStart c = false := by
  have hdigits : ∀ n ∈ List.range' 48 10,
      isIdentContinue (Char.ofNat n) = true ∧ isIdentStart (Char.ofNat n) = false := by decide
  have hmem : c.toNat ∈ List.range' 48 10 := by
    have hbounds := toNat_of_isDigit h
    rw [List.mem_range'_1]
    omega
  have hc := hdigits _ hmem
  rwa [Char.ofNat_toNat] at hc

end Text

namespace Lexeme

open Text

/-! ## Texts without quotes -/

/-- What stands after the identifier characters at the start of a text belongs to quoted text. -/
def opensQuote (cs : List Char) : Bool :=
  startsWith (fun c => c == '"' || c == '\'' || c == '#') (cs.dropWhile isIdentContinue)

/-- Identifier characters before a text do not matter for the quotes in it. -/
theorem opensQuote_append {cs : List Char} (h : ∀ c ∈ cs, isIdentContinue c = true)
    (rest : List Char) : opensQuote (cs ++ rest) = opensQuote rest := by
  rw [opensQuote, List.dropWhile_append_of_pos h, opensQuote]

/-- A raw string opens with a number sign or a quote. -/
theorem opensQuote_of_rawOpening {cs : List Char} {found : List Char × List Char}
    (h : rawOpening cs = some found) : opensQuote cs = true := by
  have hsign : isIdentContinue '#' = false := by decide
  have hquote : isIdentContinue '"' = false := by decide
  cases cs with
  | nil => cases h
  | cons c cs =>
    by_cases hc : c = '#'
    · simp [opensQuote, hc, hsign, startsWith]
    · simp only [rawOpening, beq_iff_eq, hc, not_false_eq_true, List.takeWhile_cons_of_neg,
        List.length_nil, List.drop_zero] at h
      split at h
      · rename_i heq
        cases heq
        simp [opensQuote, hquote, startsWith]
      · cases h

/-- Where no quotes open, a literal is a number. -/
theorem literal?_eq_number {cs : List Char} (h : opensQuote cs = false) :
    literal? cs = (number? cs).map fun n => (.number (cs.take n), n) := by
  have hr : isIdentContinue 'r' = true := by decide
  have hb : isIdentContinue 'b' = true := by decide
  have hdouble : isIdentContinue '"' = false := by decide
  have hsingle : isIdentContinue '\'' = false := by decide
  have hraw : ∀ {before rest : List Char}, (∀ c ∈ before, isIdentContinue c = true) →
      cs = before ++ rest → rawOpening rest = none := by
    rintro before rest hbefore rfl
    rw [opensQuote_append hbefore] at h
    cases hopening : rawOpening rest with
    | none => rfl
    | some found =>
      rw [opensQuote_of_rawOpening hopening] at h
      cases h
  have hstring : string? cs = none := by
    unfold string?
    split
    · simp [opensQuote, startsWith, hdouble] at h
    · rw [@hraw ['r'] _ (by simp [hr]) rfl]
      rfl
    · rfl
  have hbytes : bytes? cs = none := by
    unfold bytes?
    split
    · simp [opensQuote, startsWith, hdouble, hb] at h
    · rw [@hraw ['b', 'r'] _ (by simp [hr, hb]) rfl]
      rfl
    · rfl
  have hbyte : byte? cs = none := by
    unfold byte?
    split
    · simp [opensQuote, startsWith, hsingle, hb] at h
    · rfl
  have hcharacter : character? cs = none := by
    unfold character?
    split
    · simp [opensQuote, startsWith, hsingle] at h
    · rfl
  rw [literal?, hstring, hbytes, hbyte, hcharacter]
  rfl

/-- Where no quotes open, a name is an identifier. -/
theorem name?_eq_identifier {cs : List Char} (h : opensQuote cs = false) :
    name? cs = identifier? cs := by
  have hopenings : ∀ opening ∈ quoteOpenings, opensQuote opening = true := by decide
  have hnone : quoteOpenings.any (·.isPrefixOf cs) = false := by
    rw [List.any_eq_false]
    intro opening hopening hbegins
    obtain ⟨rest, rfl⟩ := List.isPrefixOf_iff_prefix.mp hbegins
    have hopens := hopenings opening hopening
    rw [opensQuote, List.dropWhile_append] at h
    rw [opensQuote] at hopens
    cases hdrop : opening.dropWhile isIdentContinue with
    | nil =>
      rw [hdrop] at hopens
      cases hopens
    | cons c more =>
      rw [hdrop] at h hopens
      rw [startsWith] at hopens
      simp [startsWith, hopens] at h
  rw [name?, hnone]
  rfl

/-! ## Single items -/

/-- Only a slash starts a comment. -/
theorem blank?_eq_none {c : Char} (hslash : c ≠ '/') (hblank : isBlank c = false)
    (cs : List Char) : blank? (c :: cs) = none := by
  rw [blank?, hblank, plainComment?]
  · rw [block?]
    · rfl
    · rintro rest ⟨⟩
      exact hslash rfl
  all_goals
    rintro rest ⟨⟩
    exact hslash rfl

/-- Only a slash starts a documentation comment. -/
theorem documentation?_eq_none {c : Char} (hslash : c ≠ '/') (cs : List Char) :
    documentation? (c :: cs) = none := by
  unfold documentation?
  split <;> simp_all

/-- At a character that starts no blank, comment or group, the item is a leaf token. -/
theorem item_of_leaf? {place : Pos} {c : Char} {cs : List Char} {token : Token} {n : Nat}
    (hblank : blank? (c :: cs) = none) (hdocumentation : documentation? (c :: cs) = none)
    (hopen : openDelim? c = none) (hclose : closeDelim? c = none)
    (hleaf : leaf? place (c :: cs) = some (token, n)) :
    item place (c :: cs) = ([leaf token], some n) := by
  rw [item, hblank, hdocumentation]
  simp [hopen, hclose, hleaf]

/-- A character of identifiers is no mark and starts no blank, comment or group. -/
theorem item_of_isIdentContinue {place : Pos} {c : Char} {cs : List Char} {token : Token} {n : Nat}
    (hc : isIdentContinue c = true) (hleaf : leaf? place (c :: cs) = some (token, n)) :
    item place (c :: cs) = ([leaf token], some n) := by
  have hslash : c ≠ '/' := by
    rintro rfl
    exact absurd hc (by decide)
  refine item_of_leaf? (blank?_eq_none hslash (isBlank_eq_false hc) cs)
    (documentation?_eq_none hslash cs) ?_ ?_ hleaf
  · unfold openDelim?
    split <;> first | rfl | exact absurd hc (by decide)
  · unfold closeDelim?
    split <;> first | rfl | exact absurd hc (by decide)

/-! ## Names -/

/-- An identifier: one character that may start it, and others with which it may go on. -/
def isIdentifier : List Char → Bool
  | [] => false
  | c :: cs => isIdentStart c && cs.all isIdentContinue

/-- An identifier is a character that may start one and characters that may go on with it. -/
theorem exists_of_isIdentifier {name : List Char} (h : isIdentifier name = true) :
    ∃ c cs, name = c :: cs ∧ isIdentStart c = true ∧ ∀ x ∈ cs, isIdentContinue x = true := by
  cases name with
  | nil => cases h
  | cons c cs =>
    rw [isIdentifier, Bool.and_eq_true, List.all_eq_true] at h
    exact ⟨c, cs, rfl, h⟩

/-- All characters of an identifier may go on with one. -/
theorem isIdentContinue_of_mem {name : List Char} (h : isIdentifier name = true) {c : Char}
    (hc : c ∈ name) : isIdentContinue c = true := by
  obtain ⟨first, others, rfl, hfirst, hothers⟩ := exists_of_isIdentifier h
  rcases List.mem_cons.mp hc with rfl | hmem
  · exact isIdentContinue_of_isIdentStart hfirst
  · exact hothers c hmem

/-- A number starts with a digit. -/
theorem number?_eq_none {c : Char} (h : c.isDigit = false) (cs : List Char) :
    number? (c :: cs) = none := by
  have hfraction : decimalFraction? (c :: cs) = none := by
    rw [decimalFraction?]
    simp [startsWith, h]
  have hinteger : integer? (c :: cs) = none := by
    have hzero : c ≠ '0' := by
      rintro rfl
      cases h
    unfold integer?
    split <;> simp_all [startsWith]
  rw [number?, hfraction, hinteger]
  rfl

/-- No punctuation mark is a character of identifiers. -/
theorem startsMark_eq_false {c : Char} (hc : isIdentContinue c = true) (cs : List Char) :
    startsMark (c :: cs) = false := by
  have hmark : c ∉ marks := by
    have hmarks : (marks.all fun x => !isIdentContinue x) = true := by decide
    intro hmem
    have hstop := List.all_eq_true.mp hmarks c hmem
    rw [hc] at hstop
    cases hstop
  unfold startsMark
  split <;> simp_all

/-- No punctuation starts with a character of identifiers. -/
theorem punctuation?_eq_none {c : Char} (hc : isIdentContinue c = true) (cs : List Char) :
    punctuation? (c :: cs) = none := by
  unfold punctuation?
  split
  · rfl
  · rename_i heq
    cases heq
    exact absurd hc (by decide)
  · rw [startsMark_eq_false hc]
    rfl

/-- An identifier reaches up to a character that cannot go on with it. -/
theorem identifier?_append {c : Char} {cs rest : List Char} (hc : isIdentStart c = true)
    (hcs : ∀ x ∈ cs, isIdentContinue x = true)
    (hstop : ∀ x ∈ rest.head?, isIdentContinue x = false)
    (hquote : opensQuote (c :: (cs ++ rest)) = false) :
    identifier? (c :: (cs ++ rest)) = some (cs.length + 1) := by
  have hlength : identLength (c :: (cs ++ rest)) = cs.length + 1 := by
    rw [identLength, if_pos hc, takeWhile_append_stop hcs hstop]
  unfold identifier?
  split
  · rename_i heq
    have hletter : isIdentContinue 'r' = true := by decide
    have hsign : isIdentContinue '#' = false := by decide
    rw [heq] at hquote
    simp [opensQuote, startsWith, hletter, hsign] at hquote
  · rw [hlength]
    rfl

/-- An identifier is read as a name. -/
theorem item_identifier {name rest : List Char} (hname : isIdentifier name = true)
    (hstop : ∀ c ∈ rest.head?, isIdentContinue c = false) (hquote : opensQuote rest = false)
    (place : Pos) :
    item place (name ++ rest) =
      ([leaf (.ident (String.ofList name) ⟨place, place.after name⟩)], some name.length) := by
  obtain ⟨c, cs, rfl, hc, hcs⟩ := exists_of_isIdentifier hname
  have hcontinue := isIdentContinue_of_isIdentStart hc
  have hquotes : opensQuote (c :: (cs ++ rest)) = false := by
    rw [← List.cons_append, opensQuote_append, hquote]
    exact List.forall_mem_cons.mpr ⟨hcontinue, hcs⟩
  have hdigit : c.isDigit = false := by
    by_contra hdigit
    rw [(isIdentContinue_of_isDigit (Bool.not_eq_false _ ▸ hdigit)).2] at hc
    cases hc
  rw [List.cons_append]
  refine item_of_isIdentContinue hcontinue ?_
  rw [leaf?, literal?_eq_number hquotes, number?_eq_none hdigit]
  simp only [Option.map_none, punctuation?_eq_none hcontinue, name?_eq_identifier hquotes,
    identifier?_append hc hcs hstop hquotes, Option.map_some, List.take_succ_cons,
    List.take_left, List.length_cons]

/-! ## Numbers -/

/-- A blank, the marks that separate parts of a text, and the delimiters. -/
def separators : List Char :=
  " ,:;()[]\x7b\x7d".toList

/-- A text may follow a name or a whole number: it goes on with neither. -/
inductive Ends : List Char → Prop where
  | nil : Ends []
  /-- A blank, a separating mark or a delimiter. -/
  | mark {c : Char} (rest : List Char) (hc : c ∈ separators) : Ends (c :: rest)
  /-- The point before a field. -/
  | point {c : Char} (rest : List Char) (hc : isIdentStart c = true) : Ends ('.' :: c :: rest)

/-- No identifier goes on with what may follow it. -/
theorem Ends.stop {rest : List Char} (h : Ends rest) :
    ∀ c ∈ rest.head?, isIdentContinue c = false := by
  have hmarks : (separators.all fun c => !isIdentContinue c) = true := by decide
  cases h with
  | nil => simp
  | mark rest hc =>
    rintro _ ⟨⟩
    simpa using List.all_eq_true.mp hmarks _ hc
  | point rest hc =>
    rintro _ ⟨⟩
    decide

/-- No quotes open in what may follow a name. -/
theorem Ends.opensQuote_eq_false {rest : List Char} (h : Ends rest) : opensQuote rest = false := by
  have hmarks : (separators.all fun c => !(c == '"' || c == '\'' || c == '#')) = true := by decide
  have hdrop : rest.dropWhile isIdentContinue = rest := by
    cases rest with
    | nil => rfl
    | cons c rest => simp [h.stop c rfl]
  rw [opensQuote, hdrop]
  cases h with
  | nil => rfl
  | mark rest hc => exact (Bool.not_eq_true' _).mp (List.all_eq_true.mp hmarks _ hc)
  | point rest hc => rfl

/-- A digit or a gap between digits is a character of identifiers. -/
theorem isDigitOrGap_eq_false {c : Char} (h : isIdentContinue c = false) :
    isDigitOrGap c = false := by
  have hgap : isIdentContinue '_' = true := by decide
  rw [isDigitOrGap, Bool.or_eq_false_iff]
  constructor
  · by_contra hdigit
    rw [(isIdentContinue_of_isDigit (Bool.not_eq_false _ ▸ hdigit)).1] at h
    cases h
  · by_contra hc
    rw [Bool.not_eq_false, beq_iff_eq] at hc
    rw [hc, hgap] at h
    cases h

section Digits

variable {digits rest : List Char}

/-- The digits at the start of a text reach up to what may follow a number. -/
theorem takeWhile_digits (hdigits : ∀ c ∈ digits, c.isDigit = true) (hends : Ends rest) :
    (digits ++ rest).takeWhile isDigitOrGap = digits := by
  refine takeWhile_append_stop (fun c hc => ?_) fun c hc => isDigitOrGap_eq_false (hends.stop c hc)
  rw [isDigitOrGap, hdigits c hc, Bool.true_or]

/-- No letter stands in second place, as it does in a number of another base. -/
theorem digits_ne_cons_cons (hdigits : ∀ c ∈ digits, c.isDigit = true) (hne : digits ≠ [])
    (hends : Ends rest) {c x : Char} {cs : List Char} (hx : x ∈ ['x', 'o', 'b']) :
    digits ++ rest ≠ c :: x :: cs := by
  have hletters : (['x', 'o', 'b'].all fun x => isIdentContinue x && !x.isDigit) = true := by
    decide
  obtain ⟨hcontinue, hdigit⟩ : isIdentContinue x = true ∧ x.isDigit = false := by
    simpa using List.all_eq_true.mp hletters x hx
  intro heq
  match digits, hne with
  | [d], _ =>
    obtain ⟨-, rfl⟩ : d = c ∧ rest = x :: cs := by simpa using heq
    rw [hends.stop x rfl] at hcontinue
    cases hcontinue
  | d :: d' :: ds, _ =>
    obtain ⟨-, rfl, -⟩ : d = c ∧ d' = x ∧ ds ++ rest = cs := by simpa using heq
    rw [hdigits d' (by simp)] at hdigit
    cases hdigit

/-- A whole number before what may follow it is no decimal fraction: a point after it belongs to a
field. -/
theorem decimalFraction?_digits (hdigits : ∀ c ∈ digits, c.isDigit = true) (hends : Ends rest) :
    decimalFraction? (digits ++ rest) = none := by
  have hexponent : ∀ {rest : List Char}, Ends rest → decimalFraction?.exponentPart rest = 0 := by
    intro rest hends
    cases rest with
    | nil => rfl
    | cons c cs =>
      have hc := hends.stop c rfl
      have he : (c == 'e' || c == 'E') = false := by
        rw [Bool.or_eq_false_iff, beq_eq_false_iff_ne, beq_eq_false_iff_ne]
        constructor
        · rintro rfl
          exact absurd hc (by decide)
        · rintro rfl
          exact absurd hc (by decide)
      rw [decimalFraction?.exponentPart, he]
      rfl
  rw [decimalFraction?]
  split
  · rfl
  · simp only [takeWhile_digits hdigits hends, List.drop_left]
    split
    · cases hends with
      | mark rest hc => exact absurd hc (by decide)
      | point rest hc => simp [startsWith, hc]
    · rw [hexponent hends]
      rfl

/-- The digits of a whole number are taken. -/
theorem integer?_digits (hdigits : ∀ c ∈ digits, c.isDigit = true) (hne : digits ≠ [])
    (hends : Ends rest) : integer? (digits ++ rest) = some digits.length := by
  have hother : ∀ {c x : Char} {cs : List Char}, x ∈ ['x', 'o', 'b'] →
      digits ++ rest ≠ c :: x :: cs := digits_ne_cons_cons hdigits hne hends
  obtain ⟨d, ds, rfl⟩ := List.exists_cons_of_ne_nil hne
  have hstarts : startsWith Char.isDigit (d :: ds ++ rest) = true := hdigits d (by simp)
  have hvalue : ∀ c : Char, c.isDigit = true → hexValue c < 10 := by
    intro c hc
    have hbounds := toNat_of_isDigit hc
    rw [hexValue, if_pos hc]
    have hzero : '0'.toNat = 48 := rfl
    omega
  unfold integer?
  split
  · rename_i heq
    exact absurd heq (hother (by decide))
  · rename_i heq
    exact absurd heq (hother (by decide))
  · rename_i heq
    exact absurd heq (hother (by decide))
  · rw [if_pos hstarts, integer?.run]
    simp only [Nat.reduceBEq, Bool.false_and, Bool.or_false]
    rw [takeWhile_digits hdigits hends, if_neg]
    rw [Bool.or_eq_true, not_or, List.all_eq_true, List.any_eq_true]
    constructor
    · intro hgaps
      have hgap := hgaps d (by simp)
      rw [beq_iff_eq] at hgap
      have hdigit := hdigits d (by simp)
      rw [hgap] at hdigit
      cases hdigit
    · rintro ⟨c, hc, hlarge⟩
      have hsmall := hvalue c (hdigits c hc)
      simp only [Bool.and_eq_true, decide_eq_true_iff] at hlarge
      omega

/-- A whole number is read with all its digits. -/
theorem number?_digits (hdigits : ∀ c ∈ digits, c.isDigit = true) (hne : digits ≠ [])
    (hends : Ends rest) : number? (digits ++ rest) = some digits.length := by
  have hsuffix : withSuffix (digits ++ rest) digits.length = some digits.length := by
    have hnone : identLength rest = 0 ∧ startsWith isIdentContinue rest = false := by
      cases rest with
      | nil => exact ⟨rfl, rfl⟩
      | cons c cs =>
        have hc := hends.stop c rfl
        refine ⟨if_neg fun hstart => ?_, hc⟩
        rw [isIdentContinue_of_isIdentStart hstart] at hc
        cases hc
    rw [withSuffix, List.drop_left, hnone.1, Nat.add_zero, List.drop_left, hnone.2]
    rfl
  rw [number?, decimalFraction?_digits hdigits hends, integer?_digits hdigits hne hends]
  exact hsuffix

/-- A whole number is read as a literal. -/
theorem item_digits (hdigits : ∀ c ∈ digits, c.isDigit = true) (hne : digits ≠ [])
    (hends : Ends rest) (place : Pos) :
    item place (digits ++ rest) =
      ([leaf (.literal (.number digits) ⟨place, place.after digits⟩)], some digits.length) := by
  have hquotes : opensQuote (digits ++ rest) = false := by
    rw [opensQuote_append fun c hc => (isIdentContinue_of_isDigit (hdigits c hc)).1,
      hends.opensQuote_eq_false]
  have hleaf : leaf? place (digits ++ rest) =
      some (.literal (.number digits) ⟨place, place.after digits⟩, digits.length) := by
    simp only [leaf?, literal?_eq_number hquotes, number?_digits hdigits hne hends, Option.map_some,
      List.take_left]
  obtain ⟨d, ds, rfl⟩ := List.exists_cons_of_ne_nil hne
  exact item_of_isIdentContinue (isIdentContinue_of_isDigit (hdigits d (by simp))).1 hleaf

end Digits

/-! ## Marks, blanks and delimiters -/

/-- A slash that no slash or asterisk follows starts no comment. -/
theorem no_comment_of_slash {rest : List Char}
    (h : startsWith (fun x => x == '/' || x == '*') rest = false) :
    blank? ('/' :: rest) = none ∧ documentation? ('/' :: rest) = none ∧
      startsMark ('/' :: rest) = true := by
  cases rest with
  | nil => exact ⟨rfl, rfl, rfl⟩
  | cons x rest =>
    rw [startsWith, Bool.or_eq_false_iff, beq_eq_false_iff_ne, beq_eq_false_iff_ne] at h
    have hblank : isBlank '/' = false := by decide
    refine ⟨?_, ?_, ?_⟩
    · rw [blank?, hblank, plainComment?]
      all_goals simp_all [block?]
    · unfold documentation?
      split <;> simp_all
    · have hmark : marks.contains '/' = true := by decide
      unfold startsMark
      split
      · simp_all
      · simp_all
      · rename_i heq
        cases heq
        exact hmark
      · rename_i heq
        cases heq

/-- The punctuation marks of expressions, types and declarations. -/
def plainMarks : List Char :=
  "!%^&*-=+|;:,<.>/".toList

/-- A punctuation mark that starts no comment is read as one. -/
theorem item_mark {c : Char} {rest : List Char} (hc : c ∈ plainMarks)
    (hslash : c = '/' → startsWith (fun x => x == '/' || x == '*') rest = false) (place : Pos) :
    item place (c :: rest) =
      ([leaf (.punct c (startsMark rest) ⟨place, place.after [c]⟩)], some 1) := by
  have hmarks : (plainMarks.all fun c => !isBlank c && !isIdentContinue c &&
      (openDelim? c).isNone && (closeDelim? c).isNone && !c.isDigit &&
      !(c == '"' || c == '\'' || c == '#') && marks.contains c) = true := by decide
  have hfacts := List.all_eq_true.mp hmarks c hc
  simp only [Bool.and_eq_true, Bool.not_eq_true', Option.isNone_iff_eq_none] at hfacts
  obtain ⟨⟨⟨⟨⟨⟨hblank, hcontinue⟩, hopen⟩, hclose⟩, hdigit⟩, hquote⟩, hmark⟩ := hfacts
  have hstart : blank? (c :: rest) = none ∧ documentation? (c :: rest) = none ∧
      startsMark (c :: rest) = true := by
    by_cases hslash' : c = '/'
    · subst hslash'
      exact no_comment_of_slash (hslash rfl)
    · refine ⟨blank?_eq_none hslash' hblank rest, documentation?_eq_none hslash' rest, ?_⟩
      unfold startsMark
      split <;> simp_all
  have hquotes : opensQuote (c :: rest) = false := by
    rw [opensQuote, List.dropWhile_cons_of_neg (by simp [hcontinue])]
    exact hquote
  have hpunctuation : punctuation? (c :: rest) = some (c, startsMark rest) := by
    unfold punctuation?
    split
    · rename_i heq
      cases heq
    · rename_i heq
      cases heq
      cases hquote
    · rename_i heq
      cases heq
      rw [if_pos hstart.2.2]
  refine item_of_leaf? hstart.1 hstart.2.1 hopen hclose ?_
  rw [leaf?, literal?_eq_number hquotes, number?_eq_none hdigit]
  simp only [Option.map_none, hpunctuation, List.take_succ_cons, List.take_zero]

/-- A blank is no lexeme. -/
theorem item_space (place : Pos) (cs : List Char) : item place (' ' :: cs) = ([], some 1) := by
  have hblank : isBlank ' ' = true := by decide
  rw [item, blank?, hblank]
  rfl

/-- A delimiter that opens a group. -/
theorem item_opener {c : Char} {delim : Delim} (h : openDelim? c = some delim) (place : Pos)
    (cs : List Char) : item place (c :: cs) = ([opener delim place], some 1) := by
  have hc : isBlank c = false ∧ c ≠ '/' := by
    unfold openDelim? at h
    split at h
    · decide
    · decide
    · decide
    · cases h
  rw [item, blank?_eq_none hc.2 hc.1, documentation?_eq_none hc.2]
  simp [h]

/-- A delimiter that closes a group. -/
theorem item_closer {c : Char} {delim : Delim} (h : closeDelim? c = some delim) (place : Pos)
    (cs : List Char) : item place (c :: cs) = ([closer delim place], some 1) := by
  have hc : isBlank c = false ∧ c ≠ '/' ∧ openDelim? c = none := by
    unfold closeDelim? at h
    split at h
    · decide
    · decide
    · decide
    · cases h
  rw [item, blank?_eq_none hc.2.1 hc.1, documentation?_eq_none hc.2.1]
  simp [h, hc.2.2]

end Lexeme

namespace Numeral

open Lexeme Text

/-- Decimal digits have the value that they spell. -/
theorem ofDigits_eq_ofDigitChars {digits : List Char} (h : ∀ c ∈ digits, c.isDigit = true) :
    ofDigits 10 digits = Nat.ofDigitChars 10 digits 0 := by
  have hfold : ∀ (ds : List Char) (m : Nat), (∀ c ∈ ds, c.isDigit = true) →
      ds.foldl (fun n c => if c == '_' then n else n * 10 + hexValue c) m =
        Nat.ofDigitChars 10 ds m := by
    intro ds
    induction ds with
    | nil => exact fun m _ => rfl
    | cons d ds ih =>
      intro m hds
      have hd := hds d (by simp)
      have hgap : (d == '_') = false := by
        rw [beq_eq_false_iff_ne]
        rintro rfl
        cases hd
      rw [List.foldl_cons, hgap, ih _ fun c hc => hds c (by simp [hc]), Nat.ofDigitChars_cons,
        hexValue, if_pos hd, Nat.mul_comm]
      rfl
  exact hfold digits 0 h

/-- Decimal digits spell a whole number without a suffix. -/
theorem ofText_digits {digits : List Char} (hdigits : ∀ c ∈ digits, c.isDigit = true)
    (hne : digits ≠ []) : ofText digits = .integer (Nat.ofDigitChars 10 digits 0) "" := by
  have hother : ∀ {c x : Char} {cs : List Char}, x ∈ ['x', 'o', 'b'] → digits ≠ c :: x :: cs := by
    intro c x cs hx heq
    exact digits_ne_cons_cons hdigits hne Ends.nil hx ((List.append_nil _).trans heq)
  have hall : digits.takeWhile isDigitOrGap = digits := by
    simpa using takeWhile_digits hdigits Ends.nil
  have hrest : digits.dropWhile isDigitOrGap = [] := by
    rw [List.dropWhile_eq_nil_iff]
    intro c hc
    rw [isDigitOrGap, hdigits c hc, Bool.true_or]
  unfold ofText
  split
  · exact absurd rfl (hother (by decide))
  · exact absurd rfl (hother (by decide))
  · exact absurd rfl (hother (by decide))
  · have hfraction : fraction? digits [] = none := rfl
    simp only [hall, List.drop_length, hfraction, Option.getD_none, whole, hrest,
      ofDigits_eq_ofDigitChars hdigits]

/-- The decimal digits of a number spell it. -/
theorem ofText_toDigits (n : Nat) : ofText (Nat.toDigits 10 n) = .integer n "" := by
  rw [ofText_digits (isDigit_of_toDigits n) Nat.toDigits_ne_nil, Nat.ofDigitChars_ten_toDigits]

end Numeral

end ShaderLang
