import Mathlib.Algebra.Group.Int.Defs
import ShaderLang.Proofs.Parentheses
import ShaderLang.Proofs.RoundTrip

/-!
# Whole numbers

A whole number is written with decimal digits, with up to two minus signs before them.  The sign
next to the digits belongs to the number, and one more sign makes the opposite of what is read after
it.  Either way the number is read as it is or refused: it is read below `2 ^ 63`, and `2 ^ 63` too
after just one sign.  Every number that fits is written so that it is read back.

Main results:

- Theorem `readAll_atom`: a text that is one literal or name is read as that.
- Theorem `Signed.readAll_integer`: what a whole number with its signs is read as, or refused for.
- Theorem `fits_of_number`: an integer that is read fits in 64 bits.
- Theorem `integer_text_exact`: the texts of whole numbers are read as they are or refused.
-/

namespace ShaderLang

namespace Grammar

open Lexeme Text

/-! ## Literals alone -/

/-- A text that is one literal or name is read as that. -/
theorem readAll_atom {tokens : List Token} (hcomments : comments tokens = .ok 0)
    (hgroup : ∀ delim content span rest, tokens ≠ .group delim content span :: rest)
    (hargs : ∀ text place content span rest,
      tokens ≠ .ident text place :: .group .paren content span :: rest)
    (hstrays : strays tokens = none)
    (hwidth : ∀ found, atom .origin tokens = .ok found → found.width = tokens.length) :
    readAll expr tokens = (atom .origin tokens).map Taken.value := by
  rw [readAll, expr, binary, operand, primary_atom hcomments hgroup hargs, List.drop_zero]
  cases hatom : atom .origin tokens with
  | error fault => rfl
  | ok found =>
    have hdrop : tokens.drop found.width = [] := by
      rw [hwidth found hatom, List.drop_length]
    simp only [bind, Except.bind, pure, Except.pure, Nat.zero_add, Nat.add_zero, hdrop,
      accesses_nil, chain_nil]
    exact complete_eq_ok_iff.mpr ⟨rfl, hdrop, hstrays⟩

/-! ## Signs and digits -/

/-- Digits after a sign of their own if `negative`, and after one more sign if `negate`. -/
inductive Signed (digits : List Char) : Bool → Bool → List Token → Prop where
  /-- Digits alone. -/
  | plain (place : Span) : Signed digits false false [.literal (.number digits) place]
  /-- Digits after one sign. -/
  | once (joint : Bool) (sign place : Span) :
    Signed digits false true [.punct '-' joint sign, .literal (.number digits) place]
  /-- Digits after two signs. -/
  | twice (joint joint' : Bool) (sign sign' place : Span) :
    Signed digits true true
      [.punct '-' joint sign, .punct '-' joint' sign', .literal (.number digits) place]

/-- The integer that a number with its signs is read as, or the fault at `span`. -/
def integer (negate negative : Bool) (n : Nat) (span : Span) : Except Fault Expr :=
  match int64 negative n >>= negateIf negate with
  | .ok k => .ok (.int k)
  | .error cause => .error ⟨cause, span⟩

/-- Digits after signs are one literal. -/
theorem Signed.readAll_eq {digits : List Char} {negate negative : Bool} {tokens : List Token}
    (h : Signed digits negate negative tokens) :
    ∃ span, readAll expr tokens =
      (atom.blame span tokens.length (number negate (.number negative (.ofText digits)))).map
        Taken.value := by
  cases h with
  | plain place =>
    refine ⟨place, readAll_atom rfl (by simp) (by simp) (by simp [strays]) ?_⟩
    exact fun found hfound => (blame_eq_ok hfound).1
  | once joint sign place =>
    refine ⟨sign.join place, readAll_atom (comments_punct (by decide) joint sign _) (by simp)
      (by simp) (by simp [strays]) ?_⟩
    exact fun found hfound => (blame_eq_ok hfound).1
  | twice joint joint' sign sign' place =>
    refine ⟨sign'.join place, readAll_atom (comments_punct (by decide) joint sign _) (by simp)
      (by simp) (by simp [strays]) ?_⟩
    exact fun found hfound => (blame_eq_ok hfound).1

/-- A whole number with its signs is read as an integer, or refused. -/
theorem Signed.readAll_integer {digits : List Char} {negate negative : Bool} {tokens : List Token}
    (h : Signed digits negate negative tokens) (hdigits : ∀ c ∈ digits, c.isDigit = true)
    (hne : digits ≠ []) :
    ∃ span, readAll expr tokens =
      integer negate negative (Nat.ofDigitChars 10 digits 0) span := by
  obtain ⟨span, hread⟩ := h.readAll_eq
  refine ⟨span, ?_⟩
  rw [hread, Numeral.ofText_digits hdigits hne, integer]
  change Except.map _ (atom.blame _ _ (int64 negative _ >>= fun n => negateIf negate n >>= _)) = _
  rw [← bind_assoc]
  cases int64 negative (Nat.ofDigitChars 10 digits 0) >>= negateIf negate with
  | ok k => rfl
  | error cause => rfl

/-! ## Texts of whole numbers -/

/-- Digits alone are read as such. -/
theorem lexes_plain {digits : List Char} (hdigits : ∀ c ∈ digits, c.isDigit = true)
    (hne : digits ≠ []) : Lexes Ends digits (Signed digits false false) := by
  refine (lexes_number hdigits hne).imp ?_
  rintro _ ⟨place, rfl⟩
  exact .plain place

/-- Digits after one sign are read as such. -/
theorem lexes_once {digits : List Char} (hdigits : ∀ c ∈ digits, c.isDigit = true)
    (hne : digits ≠ []) : Lexes Ends (['-'] ++ digits) (Signed digits false true) := by
  obtain ⟨c, cs, hcs⟩ := List.exists_cons_of_ne_nil hne
  have hc : c.isDigit = true := hdigits c (by simp [hcs])
  have hsign : Lexes (fun rest => ∃ more, rest = c :: more) ['-'] fun tokens =>
      ∃ sign, tokens = [.punct '-' false sign] := by
    refine lexes_mark (by decide) ?_
    rintro _ ⟨more, rfl⟩
    exact ⟨startsMark_eq_false (Text.isIdentContinue_of_isDigit hc).1 more, by simp⟩
  refine hsign.append (lexes_number hdigits hne) (fun rest _ => ⟨cs ++ rest, by rw [hcs]; rfl⟩) ?_
  rintro _ _ ⟨sign, rfl⟩ ⟨place, rfl⟩
  exact .once false sign place

/-- Digits after two signs with a blank between them are read as such. -/
theorem lexes_twice {digits : List Char} (hdigits : ∀ c ∈ digits, c.isDigit = true)
    (hne : digits ≠ []) :
    Lexes Ends (['-'] ++ ([' '] ++ (['-'] ++ digits))) (Signed digits true true) := by
  have hspaced : Lexes Ends ([' '] ++ (['-'] ++ digits)) (Signed digits false true) := by
    refine (@lexes_space fun _ => True).append (lexes_once hdigits hne) (fun _ _ => trivial) ?_
    rintro _ tokens rfl htokens
    exact htokens
  refine (@Target.lexes_mark_spaced '-' (by decide)).append hspaced (fun rest _ => ⟨_, rfl⟩) ?_
  rintro _ _ ⟨sign, rfl⟩ (_ | ⟨joint, sign', place⟩)
  exact .twice false joint sign sign' place

/-- A text is read as an expression. -/
def Reads (text : String) (e : Expr) : Prop :=
  ∃ tokens, tokenize text = .ok tokens ∧ readAll expr tokens = .ok e

/-- A text of tokens is refused as an expression. -/
def Refuses (text : String) (cause : Cause) : Prop :=
  ∃ tokens span, tokenize text = .ok tokens ∧ readAll expr tokens = .error ⟨cause, span⟩

/-- Without a sign a number fits if it is below `2 ^ 63`. -/
theorem int64_false (n : Nat) :
    (n < 2 ^ 63 → int64 false n = .ok n) ∧
      (2 ^ 63 ≤ n → int64 false n = .error .integerTooLarge) := by
  constructor
  · intro h
    rw [int64, if_neg Bool.false_ne_true]
    exact if_pos h
  · intro h
    rw [int64, if_neg Bool.false_ne_true]
    exact if_neg (Nat.not_lt.mpr h)

/-- After a sign a number fits up to `2 ^ 63`. -/
theorem int64_true (n : Nat) :
    (n ≤ 2 ^ 63 → int64 true n = .ok (-n)) ∧
      (2 ^ 63 < n → int64 true n = .error .integerTooSmall) := by
  constructor
  · intro h
    rw [int64, if_pos rfl]
    exact if_pos h
  · intro h
    rw [int64, if_pos rfl]
    exact if_neg (Nat.not_le.mpr h)

/-- Two signs cancel below `2 ^ 63`. -/
theorem negateIf_neg {n : Nat} (h : n < 2 ^ 63) : negateIf true (-n) = .ok n := by
  have hne : -(n : Int) ≠ -((1 <<< 63 : Nat) : Int) := by omega
  rw [negateIf, if_pos rfl, if_neg hne, Int.neg_neg]

/-- An integer that is read fits in 64 bits, whatever signs it has. -/
theorem fits_of_number {negate : Bool} {constant : Constant} {m : Int}
    (h : number negate constant = .ok (.int m)) : -2 ^ 63 ≤ m ∧ m < 2 ^ 63 := by
  obtain ⟨negative, numeral, rfl⟩ := exists_of_number h
  have hbounds : ∀ value n, int64 negative value = .ok n → negateIf negate n = .ok m →
      -2 ^ 63 ≤ m ∧ m < 2 ^ 63 := by
    intro value n hn hm
    unfold int64 at hn
    unfold negateIf at hm
    grind
  unfold number at h
  simp only at h
  split at h
  · rename_i value _ _
    obtain ⟨n, hn, h⟩ := bind_eq_ok.mp h
    obtain ⟨m', hm, h⟩ := bind_eq_ok.mp h
    cases h
    exact hbounds value n hn hm
  all_goals grind

section Texts

variable {digits : List Char} {n : Nat} (hdigits : ∀ c ∈ digits, c.isDigit = true)
  (hne : digits ≠ []) (hn : Nat.ofDigitChars 10 digits 0 = n)

include hdigits hne hn

/-- The text of a number that fits is read as the number with its signs. -/
theorem reads_integer {negate negative : Bool} {text : String}
    (h : Lexes Ends text.toList (Signed digits negate negative)) {k : Int}
    (hk : int64 negative n >>= negateIf negate = .ok k) : Reads text (.int k) := by
  obtain ⟨tokens, htokens, htokenize⟩ := tokenize_of_lexes h .nil
  obtain ⟨span, hread⟩ := htokens.readAll_integer hdigits hne
  rw [hn, integer, hk] at hread
  exact ⟨tokens, htokenize, hread⟩

/-- The text of a number that does not fit is refused. -/
theorem refuses_integer {negate negative : Bool} {text : String}
    (h : Lexes Ends text.toList (Signed digits negate negative)) {cause : Cause}
    (hcause : int64 negative n >>= negateIf negate = .error cause) : Refuses text cause := by
  obtain ⟨tokens, htokens, htokenize⟩ := tokenize_of_lexes h .nil
  obtain ⟨span, hread⟩ := htokens.readAll_integer hdigits hne
  rw [hn, integer, hcause] at hread
  exact ⟨tokens, span, htokenize, hread⟩

/-- A number without a sign is read as itself if it is below `2 ^ 63`, and refused otherwise. -/
theorem plain_text :
    (n < 2 ^ 63 → Reads (String.ofList digits) (.int n)) ∧
      (2 ^ 63 ≤ n → Refuses (String.ofList digits) .integerTooLarge) := by
  have hlexes : Lexes Ends (String.ofList digits).toList (Signed digits false false) := by
    rw [String.toList_ofList]
    exact lexes_plain hdigits hne
  constructor
  · intro h
    refine reads_integer hdigits hne hn hlexes ?_
    rw [(int64_false n).1 h]
    rfl
  · intro h
    refine refuses_integer hdigits hne hn hlexes ?_
    rw [(int64_false n).2 h]
    rfl

/-- A number after a sign is read as its opposite up to `2 ^ 63`, and refused otherwise. -/
theorem minus_text :
    (n ≤ 2 ^ 63 → Reads ("-" ++ String.ofList digits) (.int (-n))) ∧
      (2 ^ 63 < n → Refuses ("-" ++ String.ofList digits) .integerTooSmall) := by
  have hlexes : Lexes Ends ("-" ++ String.ofList digits).toList (Signed digits false true) := by
    have htext : ("-" ++ String.ofList digits).toList = ['-'] ++ digits := by simp
    rw [htext]
    exact lexes_once hdigits hne
  constructor
  · intro h
    refine reads_integer hdigits hne hn hlexes ?_
    rw [(int64_true n).1 h]
    rfl
  · intro h
    refine refuses_integer hdigits hne hn hlexes ?_
    rw [(int64_true n).2 h]
    rfl

/-- A number after two signs is read as itself below `2 ^ 63`, and refused above. -/
theorem minus_minus_text :
    (n < 2 ^ 63 → Reads ("- -" ++ String.ofList digits) (.int n)) ∧
      (2 ^ 63 < n → Refuses ("- -" ++ String.ofList digits) .integerTooSmall) := by
  have hlexes : Lexes Ends ("- -" ++ String.ofList digits).toList (Signed digits true true) := by
    have htext : ("- -" ++ String.ofList digits).toList =
        ['-'] ++ ([' '] ++ (['-'] ++ digits)) := by simp
    rw [htext]
    exact lexes_twice hdigits hne
  constructor
  · intro h
    refine reads_integer hdigits hne hn hlexes ?_
    rw [(int64_true n).1 h.le]
    exact negateIf_neg h
  · intro h
    refine refuses_integer hdigits hne hn hlexes ?_
    rw [(int64_true n).2 h]
    rfl

end Texts

/-- The text of an integer of 64 bits is read as that integer. -/
theorem exists_reads_value {m : Int} (hleast : -2 ^ 63 ≤ m) (hgreatest : m < 2 ^ 63) :
    ∃ text, Target.value (.int m) = .ok text ∧ Reads text (.int m) := by
  refine ⟨toString m, by rw [Target.value], ?_⟩
  cases m with
  | ofNat n =>
    have htext : toString (Int.ofNat n) = String.ofList (Nat.toDigits 10 n) :=
      Nat.toString_eq_ofList_toDigits
    rw [Int.ofNat_eq_natCast] at hgreatest
    have hread := plain_text (isDigit_of_toDigits n) Nat.toDigits_ne_nil
      Nat.ofDigitChars_ten_toDigits
    rw [htext]
    exact hread.1 (by omega)
  | negSucc n =>
    have htext : toString (Int.negSucc n) = "-" ++ String.ofList (Nat.toDigits 10 (n + 1)) :=
      congrArg ("-" ++ ·) Nat.toString_eq_ofList_toDigits
    rw [Int.negSucc_eq] at hleast
    have hread := minus_text (isDigit_of_toDigits (n + 1)) Nat.toDigits_ne_nil
      Nat.ofDigitChars_ten_toDigits
    rw [htext]
    exact hread.1 (by omega)

/-- Whole numbers are read as they are or refused.  Without a sign they are read below `2 ^ 63`,
after one sign up to `2 ^ 63`, and after two signs below `2 ^ 63`, where those above it are refused;
leading zeros change nothing.  So the text of every integer of 64 bits is read as that integer. -/
theorem integer_text_exact :
    (∀ digits n, (∀ c ∈ digits, c.isDigit = true) → digits ≠ [] →
        Nat.ofDigitChars 10 digits 0 = n →
      ((n < 2 ^ 63 → Reads (String.ofList digits) (.int n)) ∧
        (2 ^ 63 ≤ n → Refuses (String.ofList digits) .integerTooLarge)) ∧
      ((n ≤ 2 ^ 63 → Reads ("-" ++ String.ofList digits) (.int (-n))) ∧
        (2 ^ 63 < n → Refuses ("-" ++ String.ofList digits) .integerTooSmall)) ∧
      (n < 2 ^ 63 → Reads ("- -" ++ String.ofList digits) (.int n)) ∧
        (2 ^ 63 < n → Refuses ("- -" ++ String.ofList digits) .integerTooSmall)) ∧
      ∀ m : Int, -2 ^ 63 ≤ m → m < 2 ^ 63 →
        ∃ text, Target.value (.int m) = .ok text ∧ Reads text (.int m) := by
  constructor
  · intro digits n hdigits hne hn
    exact ⟨plain_text hdigits hne hn, minus_text hdigits hne hn, minus_minus_text hdigits hne hn⟩
  · intro m hleast hgreatest
    exact exists_reads_value hleast hgreatest

/-- The least integer is read after a sign, and its digits alone are refused. -/
theorem integer_text_exact_least :
    Nat.ofDigitChars 10 (Nat.toDigits 10 9223372036854775808) 0 = 9223372036854775808 ∧
      Refuses "9223372036854775808" .integerTooLarge ∧
      Reads "-9223372036854775808" (.int (-9223372036854775808)) ∧
      ∃ text, Target.value (.int (-9223372036854775808)) = .ok text ∧
        Reads text (.int (-9223372036854775808)) := by
  have hvalue : Nat.ofDigitChars 10 (Nat.toDigits 10 9223372036854775808) 0 =
      9223372036854775808 := Nat.ofDigitChars_ten_toDigits
  have htext : String.ofList (Nat.toDigits 10 9223372036854775808) = "9223372036854775808" := by
    decide
  obtain ⟨hplain, hminus, -⟩ := integer_text_exact.1 (Nat.toDigits 10 9223372036854775808) _
    (isDigit_of_toDigits _) Nat.toDigits_ne_nil hvalue
  rw [htext] at hplain hminus
  refine ⟨hvalue, hplain.2 (by omega), hminus.1 (by omega), ?_⟩
  exact integer_text_exact.2 (-9223372036854775808) (by omega) (by omega)

end Grammar

end ShaderLang
