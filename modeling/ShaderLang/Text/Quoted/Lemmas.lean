import ShaderLang.Text.Quoted

/-!
# Quoted text reads back

Main results:

- Theorem `foldl_hexDigits`: the digits of a number in base sixteen spell it.
- Theorem `readQuoted_quoteChar`: what stands for one character reads back as that character.
- Theorem `readQuoted_quote`: a quoted text reads back, and just its characters are taken.
-/

namespace ShaderLang.Text

/-! ## Digits -/

/-- A digit that is written is one that is read. -/
theorem isHexDigit_digitChar {n : Nat} (h : n < 16) : isHexDigit n.digitChar = true := by
  decide +revert

/-- A digit that is written has its value when it is read. -/
theorem hexValue_digitChar {n : Nat} (h : n < 16) : hexValue n.digitChar = n := by
  decide +revert

/-- All digits of a number are digits. -/
theorem isHexDigit_of_mem_hexDigits {n : Nat} {c : Char} (h : c ∈ hexDigits n) :
    isHexDigit c = true := by
  induction n using Nat.strongRecOn with
  | ind n ih =>
    by_cases hsmall : n < 16
    · rw [hexDigits, Nat.toDigits_of_lt_base hsmall] at h
      rw [List.mem_singleton.1 h]
      exact isHexDigit_digitChar hsmall
    · rw [hexDigits, Nat.toDigits_of_base_le (by decide) (by omega)] at h
      rcases List.mem_append.1 h with hhigh | hlast
      · exact ih (n / 16) (by omega) hhigh
      · rw [List.mem_singleton.1 hlast]
        exact isHexDigit_digitChar (Nat.mod_lt n (by decide))

/-- The digits of a number spell it. -/
theorem foldl_hexDigits (n : Nat) :
    (hexDigits n).foldl (fun n c => n * 16 + hexValue c) 0 = n := by
  induction n using Nat.strongRecOn with
  | ind n ih =>
    by_cases hsmall : n < 16
    · rw [hexDigits, Nat.toDigits_of_lt_base hsmall]
      simp [hexValue_digitChar hsmall]
    · have hhigh := ih (n / 16) (by omega)
      have hlast := hexValue_digitChar (Nat.mod_lt n (by decide : 0 < 16))
      rw [hexDigits] at hhigh
      rw [hexDigits, Nat.toDigits_of_base_le (by decide) (by omega), List.foldl_append, hhigh]
      simp only [List.foldl_cons, List.foldl_nil, hlast]
      omega

/-- A character has at most six digits. -/
theorem length_hexDigits_toNat_le (c : Char) : (hexDigits c.toNat).length ≤ 6 := by
  have hvalid : c.toNat.isValidChar := c.valid
  rw [hexDigits, Nat.length_toDigits_le_iff (by decide) (by decide)]
  simp only [Nat.isValidChar] at hvalid
  omega

/-! ## Characters and texts -/

/-- The code point of a character reads back. -/
theorem readCodePoint_hexDigits (c : Char) (rest : List Char) :
    readCodePoint (hexDigits c.toNat ++ '\x7d' :: rest) =
      some (c, (hexDigits c.toNat).length + 1) := by
  have hdigits : ∀ d ∈ hexDigits c.toNat, isHexDigit d = true :=
    fun d hmem => isHexDigit_of_mem_hexDigits hmem
  have hgaps : ∀ d ∈ hexDigits c.toNat, d ≠ '_' := by
    intro d hmem hgap
    have hdigit := hdigits d hmem
    simp [hgap, isHexDigit] at hdigit
  have hrun : (hexDigits c.toNat ++ '\x7d' :: rest).takeWhile
      (fun d => isHexDigit d || d == '_') = hexDigits c.toNat := by
    rw [List.takeWhile_append_of_pos (by simp +contextual [hdigits])]
    simp [isHexDigit]
  have hkept : (hexDigits c.toNat).filter (· != '_') = hexDigits c.toNat := by
    rw [List.filter_eq_self]
    intro d hmem
    simpa using hgaps d hmem
  have hne : hexDigits c.toNat ≠ [] := Nat.toDigits_ne_nil
  have hfirst : (hexDigits c.toNat).head? ≠ some '_' :=
    fun hgap => hgaps '_' (List.mem_of_mem_head? hgap) rfl
  have hvalid : c.toNat.isValidChar := c.valid
  have hback : Char.ofNatAux c.toNat hvalid = c := Char.ext (UInt32.toNat_inj.1 rfl)
  rw [readCodePoint, hrun, hkept, foldl_hexDigits, if_pos, dif_pos hvalid, hback]
  simp [hne, hfirst, length_hexDigits_toNat_le]

/-- What stands for one character reads back as that character. -/
theorem readQuoted_quoteChar (c : Char) (rest : List Char) :
    readQuoted (quoteChar c ++ rest) =
      (readQuoted rest).map fun (text, n) => (c :: text, n + (quoteChar c).length) := by
  unfold quoteChar
  iterate 6
    split
    · subst_vars
      simp [readQuoted, readEscape]
  split
  · have htail : ('u' :: '\x7b' :: (hexDigits c.toNat ++ '\x7d' :: rest)).drop
        ((hexDigits c.toNat).length + 1 + 2) = rest := by
      simp [List.drop_append]
    simp only [List.append_assoc, List.cons_append, List.nil_append]
    rw [readQuoted, readEscape, readCodePoint_hexDigits]
    simp only [Option.map_some, htail]
    simp [Nat.add_assoc]
  · simp only [List.cons_append, List.nil_append]
    rw [readQuoted]
    all_goals simp_all

/-- A quoted text reads back, and just its characters are taken. -/
theorem readQuoted_quote (cs rest : List Char) :
    readQuoted (cs.flatMap quoteChar ++ '"' :: rest) =
      some (cs, (cs.flatMap quoteChar).length + 1) := by
  induction cs with
  | nil => simp [readQuoted]
  | cons c cs ih =>
    simp only [List.flatMap_cons, List.append_assoc, readQuoted_quoteChar, ih, Option.map_some,
      List.length_append]
    congr 2
    omega

end ShaderLang.Text
