import ShaderLang.Proofs.Assembly
import ShaderLang.Proofs.Comments

/-!
# Where code goes on

Code that holds no quotes and starts no comment is read in the same way by itself, before a blank
and before the marker of a comment: no token reaches over the end of the code.  Only the joint of a
last punctuation mark changes before a marker, and three names are lost there: a number sign makes
`r`, `br` and `cr` the start of something raw.

Main results:

- Theorem `number?_append`: a number ends with the code.
- Theorem `name?_append`: a name ends with the code, if it is none of the three.
- Theorem `Plain.starts`: what the first item of some code is, whatever follows the code.
- Theorem `item_rawPrefix_marker`: one of the three names before a marker cannot be read.
-/

namespace ShaderLang

open Text

namespace Text

/-! ## Stretches before a break -/

/-- A stretch of code ends with the code, where the next character fails the test. -/
theorem takeWhile_append_break {p : Char → Bool} {cs rest : List Char}
    (h : ∀ c ∈ rest.head?, p c = false) : (cs ++ rest).takeWhile p = cs.takeWhile p := by
  induction cs with
  | nil =>
    cases rest with
    | nil => rfl
    | cons c rest => simp [h c rfl]
  | cons c cs ih =>
    by_cases hc : p c = true
    · simp [hc, ih]
    · simp [hc]

/-- A stretch is no longer than the text. -/
theorem length_takeWhile_le (p : Char → Bool) (cs : List Char) :
    (cs.takeWhile p).length ≤ cs.length :=
  (List.takeWhile_prefix p).length_le

end Text

namespace Lexeme

/-! ## What follows code -/

/-- Nothing, a blank or the marker of a comment follows. -/
inductive Breaks : List Char → Prop where
  | nil : Breaks []
  | blank (rest : List Char) : Breaks (' ' :: rest)
  | marker (rest : List Char) : Breaks ('#' :: '[' :: rest)

section Breaks

variable {rest : List Char}

/-- A test that fails for a blank and for a number sign fails for what follows code. -/
theorem Breaks.fails (h : Breaks rest) {p : Char → Bool} (hblank : p ' ' = false)
    (hsign : p '#' = false) : ∀ c ∈ rest.head?, p c = false := by
  cases h with
  | nil => simp
  | blank rest => simpa using hblank
  | marker rest => simpa using hsign

/-- Such a test is decided by the code. -/
theorem Breaks.startsWith_append (h : Breaks rest) {p : Char → Bool} (hblank : p ' ' = false)
    (hsign : p '#' = false) (cs : List Char) :
    startsWith p (cs ++ rest) = startsWith p cs := by
  cases cs with
  | cons c cs => rfl
  | nil =>
    cases h with
    | nil => rfl
    | blank rest => simpa [startsWith] using hblank
    | marker rest => simpa [startsWith] using hsign

end Breaks

/-! ## Numbers -/

section Numbers

variable {rest : List Char}

/-- The digits of a number end with the code. -/
theorem Breaks.takeWhile_digits (h : Breaks rest) (cs : List Char) :
    (cs ++ rest).takeWhile isDigitOrGap = cs.takeWhile isDigitOrGap :=
  takeWhile_append_break (h.fails (by decide) (by decide))

/-- An exponent ends with the code. -/
theorem exponent?_append (h : Breaks rest) (cs : List Char) :
    exponent? (cs ++ rest) = exponent? cs := by
  have hdrop : (cs ++ rest).drop (cs.takeWhile isDigitOrGap).length =
      cs.drop (cs.takeWhile isDigitOrGap).length ++ rest :=
    List.drop_append_of_le_length (length_takeWhile_le _ cs)
  unfold exponent?
  simp only [h.takeWhile_digits cs, hdrop]
  split
  · rfl
  · cases cs.drop (cs.takeWhile isDigitOrGap).length with
    | nil =>
      cases h with
      | nil => rfl
      | blank rest => rfl
      | marker rest => rfl
    | cons sign tail => simp only [List.cons_append, h.takeWhile_digits tail]

/-- An exponent with its letter ends with the code. -/
theorem exponentPart_append (h : Breaks rest) (cs : List Char) :
    decimalFraction?.exponentPart (cs ++ rest) = decimalFraction?.exponentPart cs := by
  cases cs with
  | cons c cs => simp only [List.cons_append, decimalFraction?.exponentPart, exponent?_append h]
  | nil =>
    cases h with
    | nil => rfl
    | blank rest => rfl
    | marker rest => rfl

/-- An exponent takes no more than there is. -/
theorem exponent?_le {cs : List Char} {n : Nat} (h : exponent? cs = some n) : n ≤ cs.length := by
  have hrun := length_takeWhile_le isDigitOrGap cs
  unfold exponent? at h
  simp only at h
  split at h
  · cases h
    exact hrun
  · split at h
    · cases h
    · rename_i sign tail hdrop
      have htail := length_takeWhile_le isDigitOrGap tail
      have hlength := congrArg List.length hdrop
      simp only [List.length_drop, List.length_cons] at hlength
      split at h
      · cases h
        omega
      · cases h

/-- An exponent with its letter takes no more than there is. -/
theorem exponentPart_le (cs : List Char) : decimalFraction?.exponentPart cs ≤ cs.length := by
  cases cs with
  | nil => simp [decimalFraction?.exponentPart]
  | cons c cs =>
    rw [decimalFraction?.exponentPart]
    split
    · split
      · rename_i n hn
        have hle := exponent?_le hn
        simp only [List.length_cons]
        omega
      · omega
    · omega

/-- A number with a point or an exponent ends with the code. -/
theorem decimalFraction?_append (h : Breaks rest) (cs : List Char) :
    decimalFraction? (cs ++ rest) = decimalFraction? cs := by
  have hdigit := h.startsWith_append (p := Char.isDigit) (by decide) (by decide) cs
  have hwhole := length_takeWhile_le isDigitOrGap cs
  have hdrop : (cs ++ rest).drop (cs.takeWhile isDigitOrGap).length =
      cs.drop (cs.takeWhile isDigitOrGap).length ++ rest :=
    List.drop_append_of_le_length hwhole
  unfold decimalFraction?
  simp only [hdigit, h.takeWhile_digits cs, hdrop]
  split
  · rfl
  · cases htail : cs.drop (cs.takeWhile isDigitOrGap).length with
    | nil =>
      cases h with
      | nil => rfl
      | blank rest => rfl
      | marker rest => rfl
    | cons c tail =>
      by_cases hpoint : c = '.'
      · subst hpoint
        have hstop := h.startsWith_append (p := fun c => c == '.' || isIdentStart c)
          (by decide) (by decide) tail
        have hlength := congrArg List.length htail
        simp only [List.length_drop, List.length_cons] at hlength
        have hfraction := length_takeWhile_le isDigitOrGap tail
        simp only [List.cons_append, hstop, h.takeWhile_digits tail]
        rw [List.drop_append_of_le_length (by omega), exponentPart_append h]
      · have hexponent : decimalFraction?.exponentPart (c :: (tail ++ rest)) =
            decimalFraction?.exponentPart (c :: tail) := exponentPart_append h (c :: tail)
        rw [List.cons_append]
        split <;> simp_all

/-- The digits of a base end with the code. -/
theorem run_append (h : Breaks rest) (base : Nat) (cs : List Char) :
    integer?.run base (cs ++ rest) = integer?.run base cs := by
  unfold integer?.run
  have hdigits : (cs ++ rest).takeWhile (fun c => isDigitOrGap c || (base == 16 && isHexDigit c)) =
      cs.takeWhile fun c => isDigitOrGap c || (base == 16 && isHexDigit c) := by
    apply takeWhile_append_break
    apply h.fails
    · simp [show isDigitOrGap ' ' = false by decide, show isHexDigit ' ' = false by decide]
    · simp [show isDigitOrGap '#' = false by decide, show isHexDigit '#' = false by decide]
  simp only [hdigits]

/-- A whole number ends with the code. -/
theorem integer?_append (h : Breaks rest) (cs : List Char) :
    integer? (cs ++ rest) = integer? cs := by
  have hdigit := h.startsWith_append (p := Char.isDigit) (by decide) (by decide) cs
  match cs with
  | [] =>
    cases h with
    | nil => rfl
    | blank rest => rfl
    | marker rest => rfl
  | [c] =>
    have hsecond : ∀ {x : Char} {tail : List Char}, x ∈ ['x', 'o', 'b'] → rest ≠ x :: tail := by
      rintro x tail hx rfl
      cases h with
      | blank rest => revert hx; decide
      | marker rest => revert hx; decide
    simp only [List.singleton_append] at hdigit ⊢
    unfold integer?
    split <;> simp_all [← run_append h 10 [c]]
  | c :: d :: cs =>
    have hten := run_append h 10 (c :: d :: cs)
    simp only [List.cons_append] at hdigit hten ⊢
    by_cases hbase : c = '0' ∧ d ∈ ['x', 'o', 'b']
    · rcases hbase with ⟨rfl, hd⟩
      simp only [List.mem_cons, List.not_mem_nil, or_false] at hd
      rcases hd with rfl | rfl | rfl
      all_goals simp only [integer?, run_append h]
    · unfold integer?
      split <;> simp_all

/-- A number with a point or an exponent takes at least its first digit and no more than there
is. -/
theorem decimalFraction?_bounds {cs : List Char} {n : Nat} (h : decimalFraction? cs = some n) :
    0 < n ∧ n ≤ cs.length := by
  have hwhole := length_takeWhile_le isDigitOrGap cs
  unfold decimalFraction? at h
  simp only at h
  split at h
  · cases h
  · split at h
    · rename_i tail hdrop
      have hfraction := length_takeWhile_le isDigitOrGap tail
      have hlength := congrArg List.length hdrop
      simp only [List.length_drop, List.length_cons] at hlength
      split at h
      · cases h
      · have hexponent := exponentPart_le (cs.drop ((cs.takeWhile isDigitOrGap).length + 1 +
          (tail.takeWhile isDigitOrGap).length))
        rw [List.length_drop] at hexponent
        cases h
        omega
    · have hexponent := exponentPart_le (cs.drop (cs.takeWhile isDigitOrGap).length)
      rw [List.length_drop] at hexponent
      split at h
      · cases h
      · rename_i hsome
        rw [beq_iff_eq] at hsome
        cases h
        omega

/-- The digits of a base are at least one and no more than there are. -/
theorem run_bounds {base : Nat} {cs : List Char} {n : Nat} (h : integer?.run base cs = some n) :
    0 < n ∧ n ≤ cs.length := by
  unfold integer?.run at h
  simp only at h
  split at h
  · cases h
  · rename_i hdigits
    cases h
    refine ⟨?_, length_takeWhile_le _ cs⟩
    by_contra hnone
    rw [Nat.pos_iff_ne_zero, not_not, List.length_eq_zero_iff] at hnone
    simp [hnone] at hdigits

/-- A whole number takes at least one character and no more than there are. -/
theorem integer?_bounds {cs : List Char} {n : Nat} (h : integer? cs = some n) :
    0 < n ∧ n ≤ cs.length := by
  have hother : ∀ {base : Nat} {tail : List Char} {n : Nat},
      (integer?.run base tail).map (· + 2) = some n → 0 < n ∧ n ≤ tail.length + 2 := by
    intro base tail n hn
    rcases Option.map_eq_some_iff.mp hn with ⟨m, hm, rfl⟩
    have hbounds := run_bounds hm
    omega
  unfold integer? at h
  split at h
  · exact hother h
  · exact hother h
  · exact hother h
  · split at h
    · exact run_bounds h
    · cases h

/-- The length of an identifier ends with the code. -/
theorem identLength_append (h : Breaks rest) (cs : List Char) :
    identLength (cs ++ rest) = identLength cs := by
  cases cs with
  | cons c cs =>
    have hcontinue : (cs ++ rest).takeWhile isIdentContinue = cs.takeWhile isIdentContinue :=
      takeWhile_append_break (h.fails (by decide) (by decide))
    simp only [List.cons_append, identLength, hcontinue]
  | nil =>
    cases h with
    | nil => rfl
    | blank rest => rfl
    | marker rest => rfl

/-- An identifier takes no more than there is. -/
theorem identLength_le (cs : List Char) : identLength cs ≤ cs.length := by
  cases cs with
  | nil => simp [identLength]
  | cons c cs =>
    have hcontinue := length_takeWhile_le isIdentContinue cs
    rw [identLength, List.length_cons]
    split <;> omega

/-- The suffix of a number ends with the code. -/
theorem withSuffix_append (h : Breaks rest) {cs : List Char} {n : Nat} (hn : n ≤ cs.length) :
    withSuffix (cs ++ rest) n = withSuffix cs n := by
  have hsuffix := identLength_le (cs.drop n)
  have hcontinue := h.startsWith_append (p := isIdentContinue) (by decide) (by decide)
    (cs.drop (n + identLength (cs.drop n)))
  rw [List.length_drop] at hsuffix
  unfold withSuffix
  rw [List.drop_append_of_le_length hn, identLength_append h]
  simp only
  rw [List.drop_append_of_le_length (by omega), hcontinue]

/-- A number with its suffix takes no more than there is. -/
theorem withSuffix_bounds {cs : List Char} {n m : Nat} (hn : n ≤ cs.length)
    (h : withSuffix cs n = some m) : n ≤ m ∧ m ≤ cs.length := by
  have hsuffix := identLength_le (cs.drop n)
  rw [List.length_drop] at hsuffix
  unfold withSuffix at h
  simp only at h
  split at h
  · cases h
  · cases h
    omega

/-- A number ends with the code. -/
theorem number?_append (h : Breaks rest) (cs : List Char) : number? (cs ++ rest) = number? cs := by
  have hbind : ∀ {found : Option Nat}, (∀ n, found = some n → n ≤ cs.length) →
      found.bind (withSuffix (cs ++ rest)) = found.bind (withSuffix cs) := by
    intro found hfound
    cases found with
    | none => rfl
    | some n => exact withSuffix_append h (hfound n rfl)
  rw [number?, number?, decimalFraction?_append h, integer?_append h,
    hbind fun n hn => (decimalFraction?_bounds hn).2, hbind fun n hn => (integer?_bounds hn).2]

/-- A number takes at least one character and no more than there are. -/
theorem number?_bounds {cs : List Char} {n : Nat} (h : number? cs = some n) :
    0 < n ∧ n ≤ cs.length := by
  have hbind : ∀ {found : Option Nat}, (∀ m, found = some m → 0 < m ∧ m ≤ cs.length) →
      found.bind (withSuffix cs) = some n → 0 < n ∧ n ≤ cs.length := by
    intro found hfound hn
    rcases Option.bind_eq_some_iff.mp hn with ⟨m, hm, hsuffix⟩
    have hbounds := hfound m hm
    have hmore := withSuffix_bounds hbounds.2 hsuffix
    omega
  rw [number?, Option.or_eq_some_iff] at h
  rcases h with hfraction | ⟨-, hinteger⟩
  · exact hbind (fun m hm => decimalFraction?_bounds hm) hfraction
  · exact hbind (fun m hm => integer?_bounds hm) hinteger

end Numbers

/-! ## Code without quotes -/

/-- Code without quotes in which no comment starts. -/
structure Plain (cs : List Char) : Prop where
  double : '"' ∉ cs
  single : '\'' ∉ cs
  comment : ¬ Piece.Opens cs

/-- The rest of such code is such code. -/
theorem Plain.tail {c : Char} {cs : List Char} (h : Plain (c :: cs)) : Plain cs where
  double hmem := h.double (List.mem_cons_of_mem c hmem)
  single hmem := h.single (List.mem_cons_of_mem c hmem)
  comment hopens := h.comment (Piece.opens_cons_iff.mpr (.inr hopens))

theorem Plain.drop {cs : List Char} (h : Plain cs) (n : Nat) : Plain (cs.drop n) := by
  induction n generalizing cs with
  | zero => exact h
  | succ n ih =>
    cases cs with
    | nil => exact h
    | cons c cs => exact ih h.tail

section Plain

variable {c : Char} {cs rest : List Char}

/-- No raw string opens in code without quotes. -/
theorem Plain.rawOpening_append (h : Plain cs) (hrest : Breaks rest) :
    rawOpening (cs ++ rest) = none := by
  have hquote : ((cs ++ rest).dropWhile (· == '#')).head? ≠ some '"' := by
    induction cs with
    | nil =>
      cases hrest with
      | nil => simp
      | blank rest => simp
      | marker rest => simp
    | cons c cs ih =>
      by_cases hc : c = '#'
      · simpa [hc] using ih h.tail
      · have hne : c ≠ '"' := fun heq => h.double (heq ▸ List.mem_cons_self)
        simpa [hc] using hne
  have hdrop : (cs ++ rest).drop ((cs ++ rest).takeWhile (· == '#')).length =
      (cs ++ rest).dropWhile (· == '#') := by
    conv_lhs =>
      arg 2
      rw [← List.takeWhile_append_dropWhile (p := (· == '#')) (l := cs ++ rest)]
    exact List.drop_left
  unfold rawOpening
  simp only [hdrop]
  split
  · rename_i heq
    simp [heq] at hquote
  · rfl

/-- The first character of code without quotes and of what follows it is no quote.  It is a
character of the code, unless it is one that ends code. -/
theorem Plain.first_append (h : Plain cs) (hrest : Breaks rest) {d : Char} {more : List Char}
    (heq : cs ++ rest = d :: more) :
    d ≠ '"' ∧ d ≠ '\'' ∧ (d ≠ ' ' → d ≠ '#' → ∃ tail, cs = d :: tail ∧ tail ++ rest = more) := by
  cases cs with
  | nil =>
    cases hrest with
    | nil => cases heq
    | blank rest =>
      cases heq
      simp
    | marker rest =>
      cases heq
      simp
  | cons c cs =>
    obtain ⟨rfl, rfl⟩ := List.cons.inj heq
    exact ⟨fun hc => h.double (hc ▸ List.mem_cons_self),
      fun hc => h.single (hc ▸ List.mem_cons_self), fun _ _ => ⟨cs, rfl, rfl⟩⟩

/-- No string starts in code without quotes. -/
theorem Plain.string?_append (h : Plain cs) (hrest : Breaks rest) :
    string? (cs ++ rest) = none := by
  unfold string?
  split
  · rename_i heq
    exact absurd rfl (h.first_append hrest heq).1
  · rename_i heq
    obtain ⟨tail, rfl, rfl⟩ := (h.first_append hrest heq).2.2 (by decide) (by decide)
    rw [h.tail.rawOpening_append hrest]
    rfl
  · rfl

/-- No string of bytes starts in code without quotes. -/
theorem Plain.bytes?_append (h : Plain cs) (hrest : Breaks rest) : bytes? (cs ++ rest) = none := by
  unfold bytes?
  split
  · rename_i heq
    obtain ⟨tail, rfl, hmore⟩ := (h.first_append hrest heq).2.2 (by decide) (by decide)
    exact absurd rfl (h.tail.first_append hrest hmore).1
  · rename_i heq
    obtain ⟨tail, rfl, hmore⟩ := (h.first_append hrest heq).2.2 (by decide) (by decide)
    obtain ⟨tail, rfl, rfl⟩ := (h.tail.first_append hrest hmore).2.2 (by decide) (by decide)
    rw [h.tail.tail.rawOpening_append hrest]
    rfl
  · rfl

/-- No byte starts in code without quotes. -/
theorem Plain.byte?_append (h : Plain cs) (hrest : Breaks rest) : byte? (cs ++ rest) = none := by
  unfold byte?
  split
  · rename_i heq
    obtain ⟨tail, rfl, hmore⟩ := (h.first_append hrest heq).2.2 (by decide) (by decide)
    exact absurd rfl (h.tail.first_append hrest hmore).2.1
  · rfl

/-- No character starts in code without quotes. -/
theorem Plain.character?_append (h : Plain cs) (hrest : Breaks rest) :
    character? (cs ++ rest) = none := by
  unfold character?
  split
  · rename_i heq
    exact absurd rfl (h.first_append hrest heq).2.1
  · rfl

/-- A literal of code without quotes is a number. -/
theorem Plain.literal?_append (h : Plain cs) (hrest : Breaks rest) :
    literal? (cs ++ rest) = (number? cs).map fun n => (.number (cs.take n), n) := by
  rw [literal?, h.string?_append hrest, h.bytes?_append hrest, h.byte?_append hrest,
    h.character?_append hrest, number?_append hrest]
  cases hnumber : number? cs with
  | none => rfl
  | some n =>
    have htake : (cs ++ rest).take n = cs.take n :=
      List.take_append_of_le_length (number?_bounds hnumber).2
    simp only [Option.or_none, Option.map_some, htake]

/-- No comment starts at a character of code. -/
theorem Plain.slash (h : Plain (c :: cs)) (hrest : Breaks rest) (hslash : c = '/') :
    startsWith (fun x => x == '/' || x == '*') (cs ++ rest) = false := by
  rw [hrest.startsWith_append (by decide) (by decide)]
  have hcomment := h.comment
  rw [Piece.opens_cons_iff, not_or] at hcomment
  cases cs with
  | nil => rfl
  | cons d cs =>
    have hd := hcomment.1
    simp only [hslash, List.head?_cons, Option.some.injEq, true_and, not_or] at hd
    simp [startsWith, hd]

/-- At a character of code there is a blank or no blank, but no comment. -/
theorem Plain.blank?_append (h : Plain (c :: cs)) (hrest : Breaks rest) :
    blank? (c :: cs ++ rest) = if isBlank c then some 1 else none := by
  by_cases hblank : isBlank c = true
  · rw [List.cons_append, blank?, if_pos hblank, if_pos hblank]
  · rw [Bool.not_eq_true] at hblank
    rw [hblank, List.cons_append]
    by_cases hslash : c = '/'
    · have hnone := (no_comment_of_slash (h.slash hrest hslash)).1
      rwa [← hslash] at hnone
    · exact blank?_eq_none hslash hblank _

theorem Plain.documentation?_append (h : Plain (c :: cs)) (hrest : Breaks rest) :
    documentation? (c :: cs ++ rest) = none := by
  by_cases hslash : c = '/'
  · have hnone := (no_comment_of_slash (h.slash hrest hslash)).2.1
    rwa [← hslash] at hnone
  · exact documentation?_eq_none hslash _

/-- The first character of code is punctuation or not, whatever follows. -/
theorem Plain.startsMark_append (h : Plain (c :: cs)) (hrest : Breaks rest) :
    startsMark (c :: cs ++ rest) = marks.contains c := by
  by_cases hslash : c = '/'
  · have hmark := (no_comment_of_slash (h.slash hrest hslash)).2.2
    rw [hslash, List.cons_append, hmark]
    decide
  · rw [List.cons_append, startsMark]
    · rintro more rfl
      exact absurd rfl hslash
    · rintro more rfl
      exact absurd rfl hslash

/-- The punctuation of code without quotes. -/
theorem Plain.punctuation?_append (h : Plain (c :: cs)) (hrest : Breaks rest) :
    punctuation? (c :: cs ++ rest) =
      if marks.contains c then some (c, startsMark (cs ++ rest)) else none := by
  have hc : c ≠ '\'' := fun heq => h.single (heq ▸ List.mem_cons_self)
  rw [← h.startsMark_append hrest, List.cons_append, punctuation?]
  rintro rfl
  exact hc rfl

end Plain

/-! ## Names -/

/-- The names that a number sign makes the start of something raw. -/
def rawPrefixes : List (List Char) :=
  [['r'], ['b', 'r'], ['c', 'r']]

section Names

variable {cs rest : List Char}

/-- A plain or raw identifier ends with the code. -/
theorem identifier?_append_break (h : Breaks rest) (hraw : cs ≠ ['r']) :
    identifier? (cs ++ rest) = identifier? cs := by
  by_cases hsign : ∃ tail, cs = 'r' :: '#' :: tail
  · rcases hsign with ⟨tail, rfl⟩
    have htake : (tail ++ rest).take (identLength tail) = tail.take (identLength tail) :=
      List.take_append_of_le_length (identLength_le tail)
    simp only [List.cons_append, identifier?, identLength_append h, htake]
  · have hplain : ∀ text : List Char, (∀ tail, text ≠ 'r' :: '#' :: tail) →
        identifier? text = if identLength text == 0 then none else some (identLength text) := by
      intro text htext
      unfold identifier?
      split
      · exact absurd rfl (htext _)
      · rfl
    have happend : ∀ tail, cs ++ rest ≠ 'r' :: '#' :: tail := by
      intro tail heq
      rcases cs with _ | ⟨c, _ | ⟨d, cs⟩⟩
      · cases h with
        | nil => cases heq
        | blank rest => cases heq
        | marker rest => cases heq
      · cases heq
        exact hraw rfl
      · cases heq
        exact hsign ⟨cs, rfl⟩
    rw [hplain _ happend, hplain cs fun tail heq => hsign ⟨tail, heq⟩, identLength_append h]

/-- No string or bytes begin where they do not begin in the code alone. -/
theorem quoteOpenings_append (h : Breaks rest) (hraw : cs ∉ rawPrefixes) (hsign : cs ≠ ['r', '#']) :
    quoteOpenings.any (·.isPrefixOf (cs ++ rest)) = quoteOpenings.any (·.isPrefixOf cs) := by
  -- How a beginning goes on after some of its characters: not with a blank, and with the two
  -- characters of a marker only after the names that are excluded.
  have hopenings : ∀ opening ∈ quoteOpenings, ∀ k < opening.length,
      (opening.drop k).head? ≠ some ' ' ∧ (((opening.drop k).take 2).isPrefixOf ['#', '['] = true →
        opening.take k ∈ rawPrefixes ∨ opening.take k = ['r', '#']) := by decide
  rw [Bool.eq_iff_iff, List.any_eq_true, List.any_eq_true]
  constructor
  · rintro ⟨opening, hopening, hbegins⟩
    refine ⟨opening, hopening, ?_⟩
    rw [List.isPrefixOf_iff_prefix] at hbegins ⊢
    rcases List.prefix_or_prefix_of_prefix hbegins (List.prefix_append cs rest) with hin | hover
    · exact hin
    rcases hover with ⟨more, rfl⟩
    rw [List.prefix_append_right_inj] at hbegins
    by_cases hmore : more = []
    · rw [hmore, List.append_nil]
    have hlength : cs.length < (cs ++ more).length := by
      rw [List.length_append]
      have := List.length_pos_iff.mpr hmore
      omega
    have hgoes := hopenings _ hopening _ hlength
    rw [List.drop_left, List.take_left] at hgoes
    rcases List.exists_cons_of_ne_nil hmore with ⟨d, tail, rfl⟩
    cases h with
    | nil => simp at hbegins
    | blank rest =>
      rw [List.cons_prefix_cons] at hbegins
      exact absurd (congrArg some hbegins.1) hgoes.1
    | marker rest =>
      have htwo : ((d :: tail).take 2).isPrefixOf ['#', '['] = true := by
        rw [List.isPrefixOf_iff_prefix]
        exact hbegins.take 2
      rcases hgoes.2 htwo with hname | hname
      · exact absurd hname hraw
      · exact absurd hname hsign
  · rintro ⟨opening, hopening, hbegins⟩
    rw [List.isPrefixOf_iff_prefix] at hbegins
    exact ⟨opening, hopening,
      List.isPrefixOf_iff_prefix.mpr (hbegins.trans (List.prefix_append cs rest))⟩

/-- A name ends with the code, if a number sign does not make it the start of something raw. -/
theorem name?_append (h : Breaks rest) (hraw : cs ∉ rawPrefixes) :
    name? (cs ++ rest) = name? cs := by
  by_cases hsign : cs = ['r', '#']
  · subst hsign
    cases h with
    | nil => rfl
    | blank rest => rfl
    | marker rest => rfl
  · have hr : cs ≠ ['r'] := by
      rintro rfl
      exact hraw (by decide)
    rw [name?, name?, quoteOpenings_append h hraw hsign, identifier?_append_break h hr]

/-- A name takes at least one character and no more than there are. -/
theorem name?_bounds {n : Nat} (h : name? cs = some n) : 0 < n ∧ n ≤ cs.length := by
  unfold name? identifier? at h
  split at h
  · cases h
  · split at h
    · rename_i tail _
      have hlength := identLength_le tail
      simp only at h
      split at h
      · cases h
      · cases h
        simp only [List.length_cons]
        omega
    · have hlength := identLength_le cs
      simp only at h
      split at h
      · cases h
      · rename_i hsome
        rw [beq_iff_eq] at hsome
        cases h
        omega

/-- One of the three names is read as a name before nothing and before a blank. -/
theorem name?_rawPrefix (hraw : cs ∈ rawPrefixes) (hrest : Breaks rest)
    (hblank : ∀ tail, rest ≠ '#' :: '[' :: tail) : name? (cs ++ rest) = some cs.length := by
  simp only [rawPrefixes, List.mem_cons, List.not_mem_nil, or_false] at hraw
  cases hrest with
  | nil => rcases hraw with rfl | rfl | rfl <;> decide
  | blank rest => rcases hraw with rfl | rfl | rfl <;> rfl
  | marker rest => exact absurd rfl (hblank rest)

/-- Before a marker it is no name. -/
theorem name?_rawPrefix_marker (hraw : cs ∈ rawPrefixes) :
    name? (cs ++ '#' :: '[' :: rest) = none := by
  simp only [rawPrefixes, List.mem_cons, List.not_mem_nil, or_false] at hraw
  rcases hraw with rfl | rfl | rfl <;> rfl

end Names

/-! ## The first item -/

/-- Two numbers or delimiters are the same, wherever they stand. -/
inductive Alike : Lexeme → Lexeme → Prop where
  | number (text : List Char) (span span' : Span) :
      Alike (leaf (.literal (.number text) span)) (leaf (.literal (.number text) span'))
  | opener (delim : Delim) (place place' : Pos) : Alike (opener delim place) (opener delim place')
  | closer (delim : Delim) (place place' : Pos) : Alike (closer delim place) (closer delim place')

/-- What the first item of some code is, wherever the code stands and whatever follows it. -/
inductive Starts (cs : List Char) : Prop where
  | blank (hn : 1 ≤ cs.length) (hmark : startsMark cs = false)
      (h : ∀ place rest, Breaks rest → item place (cs ++ rest) = ([], some 1))
  | token (lexeme : Pos → Lexeme) (n : Nat) (hn : 0 < n ∧ n ≤ cs.length)
      (halike : ∀ place place', Alike (lexeme place) (lexeme place'))
      (h : ∀ place rest, Breaks rest → item place (cs ++ rest) = ([lexeme place], some n))
  /-- One of the three names is lost before a marker. -/
  | name (n : Nat) (hn : 0 < n ∧ n ≤ cs.length)
      (h : ∀ place rest, Breaks rest → (cs ∈ rawPrefixes → ∀ tail, rest ≠ '#' :: '[' :: tail) →
        item place (cs ++ rest) =
          ([leaf (.ident (String.ofList (cs.take n)) ⟨place, place.after (cs.take n)⟩)], some n))
  /-- Whether a mark is joint depends on what follows. -/
  | mark (c : Char) (tail : List Char) (hcs : cs = c :: tail)
      (h : ∀ place rest, Breaks rest → item place (cs ++ rest) =
        ([leaf (.punct c (startsMark (tail ++ rest)) ⟨place, place.after [c]⟩)], some 1))
  | fault (h : ∀ place rest, Breaks rest → item place (cs ++ rest) = ([fault place], none))

section Starts

variable {c : Char} {cs rest : List Char}

/-- What is no blank and no delimiter is a leaf token or cannot be read. -/
theorem Plain.item_append (h : Plain (c :: cs)) (hrest : Breaks rest) (hblank : isBlank c = false)
    (hopen : openDelim? c = none) (hclose : closeDelim? c = none) (place : Pos) :
    item place (c :: cs ++ rest) =
      match leaf? place (c :: cs ++ rest) with
      | some (token, n) => ([leaf token], some n)
      | none => ([Lexeme.fault place], none) := by
  have hhead : (c :: cs ++ rest).head? = some c := rfl
  rewrite [item, h.blank?_append hrest, hblank, h.documentation?_append hrest, hhead,
    Option.bind_some, hopen, Option.bind_some, hclose]
  rfl

/-- A leaf token of code without quotes is a number, a mark or a name. -/
theorem Plain.leaf?_append (h : Plain (c :: cs)) (hrest : Breaks rest) (place : Pos) :
    leaf? place (c :: cs ++ rest) =
      match number? (c :: cs) with
      | some n => some (.literal (.number ((c :: cs).take n))
          ⟨place, place.after ((c :: cs).take n)⟩, n)
      | none =>
        if marks.contains c then
          some (.punct c (startsMark (cs ++ rest)) ⟨place, place.after [c]⟩, 1)
        else (name? (c :: cs ++ rest)).map fun n =>
          (.ident (String.ofList ((c :: cs ++ rest).take n))
            ⟨place, place.after ((c :: cs ++ rest).take n)⟩, n) := by
  rw [leaf?, h.literal?_append hrest, h.punctuation?_append hrest]
  cases hnumber : number? (c :: cs) with
  | some n =>
    have htake : (c :: cs ++ rest).take n = (c :: cs).take n :=
      List.take_append_of_le_length (number?_bounds hnumber).2
    simp only [Option.map_some, htake]
  | none =>
    by_cases hmark : marks.contains c = true
    · simp only [Option.map_none, if_pos hmark]
      rfl
    · simp only [Option.map_none, if_neg hmark]

/-- Code starts with a blank, a token, or something that cannot be read. -/
theorem Plain.starts (h : Plain (c :: cs)) : Starts (c :: cs) := by
  cases hblank : isBlank c with
  | true =>
    refine .blank (by simp) ?_ fun place rest hrest => ?_
    · have hmarks : (marks.all fun x => !isBlank x) = true := by decide
      have hmark := h.startsMark_append .nil
      rw [List.append_nil] at hmark
      rw [hmark, List.contains_eq_mem, decide_eq_false_iff_not]
      intro hmem
      have hc := List.all_eq_true.mp hmarks c hmem
      rw [hblank] at hc
      cases hc
    · rw [item, h.blank?_append hrest, if_pos hblank]
  | false =>
    cases hopen : openDelim? c with
    | some delim =>
      exact .token (opener delim) 1 (by simp) (.opener delim) fun place rest _ =>
        item_opener hopen place (cs ++ rest)
    | none =>
      cases hclose : closeDelim? c with
      | some delim =>
        exact .token (closer delim) 1 (by simp) (.closer delim) fun place rest _ =>
          item_closer hclose place (cs ++ rest)
      | none =>
        cases hnumber : number? (c :: cs) with
        | some n =>
          refine .token (fun place => leaf (.literal (.number ((c :: cs).take n))
            ⟨place, place.after ((c :: cs).take n)⟩)) n (number?_bounds hnumber)
            (fun place place' => .number _ _ _) fun place rest hrest => ?_
          rw [h.item_append hrest hblank hopen hclose, h.leaf?_append hrest, hnumber]
        | none =>
          by_cases hmark : marks.contains c = true
          · refine .mark c cs rfl fun place rest hrest => ?_
            rw [h.item_append hrest hblank hopen hclose, h.leaf?_append hrest, hnumber]
            simp only [if_pos hmark]
          · cases hname : name? (c :: cs) with
            | some n =>
              have hn := name?_bounds hname
              refine .name n hn fun place rest hrest hraw => ?_
              have happend : name? (c :: cs ++ rest) = some n := by
                by_cases hmem : c :: cs ∈ rawPrefixes
                · have hwhole := name?_rawPrefix hmem .nil (by simp)
                  rw [List.append_nil, hname] at hwhole
                  rw [name?_rawPrefix hmem hrest (hraw hmem), hwhole]
                · rw [name?_append hrest hmem, hname]
              rw [h.item_append hrest hblank hopen hclose, h.leaf?_append hrest, hnumber]
              simp only [if_neg hmark, happend, Option.map_some,
                List.take_append_of_le_length hn.2]
            | none =>
              refine .fault fun place rest hrest => ?_
              have hraw : c :: cs ∉ rawPrefixes := by
                intro hmem
                have hwhole := name?_rawPrefix hmem .nil (by simp)
                rw [List.append_nil, hname] at hwhole
                cases hwhole
              rw [h.item_append hrest hblank hopen hclose, h.leaf?_append hrest, hnumber]
              simp only [if_neg hmark, name?_append hrest hraw, hname, Option.map_none]

theorem plain_of_mem_rawPrefixes (hraw : cs ∈ rawPrefixes) : Plain cs := by
  have hall : (rawPrefixes.all fun cs => !cs.contains '"' && !cs.contains '\'' &&
      !cs.contains '/') = true := by decide
  have hcs := List.all_eq_true.mp hall cs hraw
  simp only [Bool.and_eq_true, Bool.not_eq_true', List.contains_eq_mem,
    decide_eq_false_iff_not] at hcs
  refine ⟨hcs.1.1, hcs.1.2, ?_⟩
  rintro (hopens | hopens) <;> exact hcs.2 (hopens.mem (by simp))

/-- One of the three names is read as a name or not at all. -/
theorem item_of_mem_rawPrefixes (hraw : cs ∈ rawPrefixes) (hrest : Breaks rest) (place : Pos) :
    item place (cs ++ rest) =
      match name? (cs ++ rest) with
      | some n => ([leaf (.ident (String.ofList ((cs ++ rest).take n))
          ⟨place, place.after ((cs ++ rest).take n)⟩)], some n)
      | none => ([Lexeme.fault place], none) := by
  have hplain := plain_of_mem_rawPrefixes hraw
  have hfirst : cs = ['r'] ∨ cs = ['b', 'r'] ∨ cs = ['c', 'r'] := by
    simpa [rawPrefixes] using hraw
  have hread : ∀ {c : Char} {tail : List Char}, cs = c :: tail → isBlank c = false →
      openDelim? c = none → closeDelim? c = none → number? (c :: tail) = none →
      marks.contains c = false → item place (cs ++ rest) =
        match name? (cs ++ rest) with
        | some n => ([leaf (.ident (String.ofList ((cs ++ rest).take n))
            ⟨place, place.after ((cs ++ rest).take n)⟩)], some n)
        | none => ([Lexeme.fault place], none) := by
    rintro c tail rfl hblank hopen hclose hnumber hmark
    rw [hplain.item_append hrest hblank hopen hclose, hplain.leaf?_append hrest, hnumber]
    simp only [hmark, Bool.false_eq_true, if_false]
    cases name? (c :: tail ++ rest) <;> rfl
  rcases hfirst with rfl | rfl | rfl
  all_goals exact hread rfl (by decide) rfl rfl (number?_eq_none (by decide) _) (by decide)

/-- Before a marker it cannot be read. -/
theorem item_rawPrefix_marker (hraw : cs ∈ rawPrefixes) (place : Pos) (rest : List Char) :
    item place (cs ++ '#' :: '[' :: rest) = ([Lexeme.fault place], none) := by
  rw [item_of_mem_rawPrefixes hraw (.marker rest), name?_rawPrefix_marker hraw]

/-- By itself it is read as a name. -/
theorem item_rawPrefix (hraw : cs ∈ rawPrefixes) (place : Pos) :
    item place cs =
      ([leaf (.ident (String.ofList cs) ⟨place, place.after cs⟩)], some cs.length) := by
  have hitem := item_of_mem_rawPrefixes hraw .nil place
  rw [name?_rawPrefix hraw .nil (by simp)] at hitem
  simpa using hitem

end Starts

end Lexeme

end ShaderLang
