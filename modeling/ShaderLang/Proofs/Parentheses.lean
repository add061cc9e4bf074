import Mathlib.Algebra.Group.Nat.Defs
import ShaderLang.Proofs.Climbing

/-!
# Parentheses around an expression

Inside parentheses the prefix form `op a b` competes with the ordinary one.  An expression that
starts with an operator starts with a signed number, and parentheses keep what it means unless it
is also a prefix form.  That happens to a difference of two numbers alone: `-1 - 2` in parentheses
is read as the prefix form of `1` and `-2`, so both numbers change their signs.

Main results:

- Theorem `operand_minus`: a minus sign before an operand changes the sign of the number in it.
- Theorem `difference_of_prefixed`: an expression that is also a prefix form is a difference of two
  numbers, and the prefix form has the opposite numbers.
- Theorem `readAll_paren`: an expression is read in parentheses too, and as the same one unless it
  is also a prefix form.
-/

namespace ShaderLang

/-! ## Opposite numbers -/

/-- The opposite of a bit pattern has as many bits, and its opposite is the pattern again. -/
theorem Floating.Format.negate_negate {f : Format} {bits : Nat}
    (h : bits < 2 ^ (f.fractionBits + f.exponentBits + 1)) :
    f.negate bits < 2 ^ (f.fractionBits + f.exponentBits + 1) ∧
      f.negate (f.negate bits) = bits := by
  have hadd : ∀ n, n < 2 ^ (f.fractionBits + f.exponentBits) →
      f.negate n = n + 2 ^ (f.fractionBits + f.exponentBits) := fun n hn => if_pos hn
  have hsub : ∀ n, ¬ n < 2 ^ (f.fractionBits + f.exponentBits) →
      f.negate n = n - 2 ^ (f.fractionBits + f.exponentBits) := fun n hn => if_neg hn
  rw [Nat.pow_succ] at h ⊢
  by_cases hsign : bits < 2 ^ (f.fractionBits + f.exponentBits)
  · rw [hadd bits hsign, hsub _ (by omega)]
    omega
  · rw [hsub bits hsign, hadd _ (by omega)]
    omega

/-- A value of single precision is the opposite of its opposite. -/
@[simp]
theorem Single.neg_neg (x : Single) : x.neg.neg = x := by
  obtain ⟨hlt, hbits⟩ := @Floating.Format.negate_negate Floating.single _ x.bits.toNat_lt
  simp only [Single.neg, UInt32.toNat_ofNat_of_lt' hlt, hbits, UInt32.ofNat_toNat]

/-- A value of double precision is the opposite of its opposite. -/
@[simp]
theorem Double.neg_neg (x : Double) : x.neg.neg = x := by
  obtain ⟨hlt, hbits⟩ := @Floating.Format.negate_negate Floating.double _ x.bits.toNat_lt
  simp only [Double.neg, UInt64.toNat_ofNat_of_lt' hlt, hbits, UInt64.ofNat_toNat]

namespace Expr

/-- A number, perhaps with indices and fields after it. -/
def IsNumeral : Expr → Prop
  | int _ | float _ | double _ => True
  | field base _ => base.IsNumeral
  | index base _ => base.IsNumeral
  | _ => False

/-- An expression with the opposite of the number that it starts with. -/
def opposite : Expr → Expr
  | int value => int (-value)
  | float value => float value.neg
  | double value => double value.neg
  | field base name => field base.opposite name
  | index base position => index base.opposite position
  | e => e

/-- An expression is the opposite of its opposite. -/
@[simp]
theorem opposite_opposite (e : Expr) : e.opposite.opposite = e := by
  fun_induction opposite e with
  | case1 value => simp [opposite]
  | case2 value => simp [opposite]
  | case3 value => simp [opposite]
  | case4 base name ih => simp [opposite, ih]
  | case5 base position ih => simp [opposite, ih]
  | case6 e => rw [opposite] <;> assumption

/-- The opposite of a number is a number. -/
@[simp]
theorem isNumeral_opposite_iff {e : Expr} : e.opposite.IsNumeral ↔ e.IsNumeral := by
  fun_induction opposite e with
  | case1 value => simp [IsNumeral]
  | case2 value => simp [IsNumeral]
  | case3 value => simp [IsNumeral]
  | case4 base name ih => simpa [IsNumeral] using ih
  | case5 base position ih => simpa [IsNumeral] using ih
  | case6 e => rfl

end Expr

namespace Grammar

open ShaderLang.Expr

variable {strength : Operator → Nat}

/-! ## Signs -/

/-- The number that a numeral stands for without a sign. -/
def unsigned (numeral : Numeral) : Expr :=
  match numeral, numeral.suffix with
  | .integer value _, "" => .int value
  | _, "d" | _, "f64" => .double numeral.toDouble
  | _, _ => .float numeral.toDouble.toSingle

/-- A numeral stands for a number. -/
theorem isNumeral_unsigned (numeral : Numeral) : (unsigned numeral).IsNumeral := by
  unfold unsigned
  split <;> trivial

/-- Two signs before a numeral cancel, and one makes it the opposite. -/
theorem number_eq {negate negative : Bool} {numeral : Numeral} {e : Expr}
    (h : number negate (.number negative numeral) = .ok e) :
    e = if negate != negative then (unsigned numeral).opposite else unsigned numeral := by
  have hint : ∀ value n m, int64 negative value = .ok n → negateIf negate n = .ok m →
      m = if negate != negative then -(value : Int) else value := by
    intro value n m hn hm
    unfold int64 at hn
    unfold negateIf at hm
    grind
  have hfinite : ∀ {finite : Bool} {x : Expr} {cause : Cause},
      (if finite then .ok x else .error cause : Except Cause Expr) = .ok e → e = x := by
    intro finite x cause h
    split at h
    · cases h
      rfl
    · cases h
  unfold number at h
  unfold unsigned
  simp only at h
  split at h
  · rename_i value _ hsuffix
    obtain ⟨n, hn, h⟩ := bind_eq_ok.mp h
    obtain ⟨m, hm, h⟩ := bind_eq_ok.mp h
    cases h
    simp only [hsuffix, hint value n m hn hm]
    cases negate <;> cases negative <;> rfl
  · rename_i hsuffix
    simp only [hfinite h, hsuffix]
    split <;> rfl
  · rename_i hsuffix
    simp only [hfinite h, hsuffix]
    split <;> rfl
  · rename_i numeral _ _ hinteger hsuffix
    simp only [hfinite h, hsuffix]
    cases numeral with
    | integer value suffix => exact (hinteger value suffix rfl).elim
    | fraction value suffix => split <;> rfl
  · rename_i numeral _ _ hsuffix
    simp only [hfinite h, hsuffix]
    cases numeral <;> split <;> rfl
  · rename_i numeral _ _ hsuffix
    simp only [hfinite h, hsuffix]
    cases numeral <;> split <;> rfl
  · cases h

/-- A literal that is a number is a numeral, perhaps after a minus sign. -/
theorem literal?_number {tokens : List Token} {negative : Bool} {numeral : Numeral} {place : Span}
    {width : Nat} (h : literal? tokens = some ⟨(.number negative numeral, place), width⟩) :
    ∃ text span rest, numeral = .ofText text ∧
      ((tokens = .literal (.number text) span :: rest ∧ negative = false ∧ width = 1) ∨
        ∃ joint sign, tokens = .punct '-' joint sign :: .literal (.number text) span :: rest ∧
          negative = true ∧ width = 2) := by
  unfold literal? at h
  split at h
  · rename_i text span rest
    cases h
    exact ⟨text, place, rest, rfl, Or.inl ⟨rfl, rfl, rfl⟩⟩
  · cases h
  · cases h
  · cases h
  · cases h
  · rename_i joint sign text span rest
    cases h
    exact ⟨text, span, rest, rfl, Or.inr ⟨joint, sign, rfl, rfl, rfl⟩⟩
  · cases h

/-- Only a number is read as a number. -/
theorem exists_of_number {negate : Bool} {constant : Constant} {e : Expr}
    (h : number negate constant = .ok e) :
    ∃ negative numeral, constant = .number negative numeral := by
  cases constant with
  | number negative numeral => exact ⟨negative, numeral, rfl⟩
  | truth value => cases h
  | string => cases h
  | other => cases h

/-- What a literal is read as has the width of the literal. -/
theorem blame_eq_ok {place : Span} {width : Nat} {x : Except Cause Expr} {found : Taken Expr}
    (h : atom.blame place width x = .ok found) : found.width = width ∧ x = .ok found.value := by
  cases x with
  | error cause => cases h
  | ok e =>
    cases h
    exact ⟨rfl, rfl⟩

/-- A number is read with the sign that belongs to it. -/
theorem atom_number {stop : Span} {tokens : List Token} {negative : Bool} {numeral : Numeral}
    {place : Span} {width : Nat} {found : Taken Expr}
    (hliteral : literal? tokens = some ⟨(.number negative numeral, place), width⟩)
    (h : atom stop tokens = .ok found) :
    found.width = width ∧
      found.value = if negative then (unsigned numeral).opposite else unsigned numeral := by
  unfold atom at h
  rw [hliteral] at h
  obtain ⟨hwidth, hnumber⟩ := blame_eq_ok h
  have hvalue := number_eq hnumber
  rw [Bool.false_bne] at hvalue
  exact ⟨hwidth, hvalue⟩

/-- An atom that starts with a mark starts with a minus sign before a number, and is read as the
opposite of what the number is read as. -/
theorem atom_punct {stop : Span} {c : Char} {joint : Bool} {span : Span} {rest : List Token}
    {found : Taken Expr} (h : atom stop (.punct c joint span :: rest) = .ok found) :
    c = '-' ∧ ∃ negative numeral place width,
      literal? rest = some ⟨(.number negative numeral, place), width⟩ ∧ found.width = width + 1 ∧
        found.value = if negative then unsigned numeral else (unsigned numeral).opposite := by
  unfold atom at h
  split at h
  · rename_i hliteral
    unfold literal? at hliteral
    split at hliteral
    all_goals first | rename_i heq; cases heq; done | cases hliteral
  · rename_i constant place width _ hliteral
    obtain ⟨hwidth, hnumber⟩ := blame_eq_ok h
    obtain ⟨negative, numeral, rfl⟩ := exists_of_number hnumber
    obtain ⟨text, numberSpan, more, rfl, ⟨htokens, -⟩ | ⟨_, _, htokens, rfl, rfl⟩⟩ :=
      literal?_number hliteral
    · cases htokens
    · cases htokens
      exact ⟨rfl, false, .ofText text, numberSpan, 1, rfl, hwidth, number_eq hnumber⟩
  · split at h
    · rename_i constant place width hnegated
      obtain ⟨hwidth, hnumber⟩ := blame_eq_ok h
      obtain ⟨negative, numeral, rfl⟩ := exists_of_number hnumber
      unfold negated? at hnegated
      split at hnegated
      · rename_i htokens
        cases htokens
        obtain ⟨⟨_, numberWidth⟩, hliteral, htaken⟩ := Option.map_eq_some_iff.mp hnegated
        cases htaken
        refine ⟨rfl, negative, numeral, place, numberWidth, hliteral, hwidth, ?_⟩
        have hvalue := number_eq hnumber
        cases negative <;> simpa using hvalue
      · cases hnegated
    · cases h

/-! ## Operands -/

/-- A number at the start of an operand is an atom. -/
theorem primary_number {tokens : List Token} {negative : Bool} {numeral : Numeral} {place : Span}
    {width : Nat} (h : literal? tokens = some ⟨(.number negative numeral, place), width⟩)
    (stop : Span) :
    primary strength stop tokens = do
      let e ← atom stop tokens
      return ⟨e.value, 0 + e.width⟩ := by
  obtain ⟨text, span, rest, -, ⟨rfl, -⟩ | ⟨joint, sign, rfl, -⟩⟩ := literal?_number h
  · have hcomments : comments (.literal (.number text) span :: rest) = .ok 0 := rfl
    exact primary_atom hcomments (by simp) (by simp) stop
  · exact primary_atom (comments_punct (by decide) joint sign _) (by simp) (by simp) stop

/-- Indices and fields are taken whatever stands before them, and leave its sign alone. -/
theorem accesses_opposite {base : Expr} {tokens : List Token} {found : Taken Expr}
    (h : accesses strength base tokens = .ok found) :
    accesses strength base.opposite tokens = .ok ⟨found.value.opposite, found.width⟩ ∧
      (base.IsNumeral → found.value.IsNumeral) := by
  unfold accesses at h ⊢
  split at h
  · obtain ⟨position, hposition, h⟩ := bind_eq_ok.mp h
    obtain ⟨e, he, h⟩ := bind_eq_ok.mp h
    cases h
    obtain ⟨hopposite, hnumeral⟩ := accesses_opposite he
    exact ⟨bind_eq_ok.mpr ⟨position, hposition, bind_eq_ok.mpr ⟨_, hopposite, rfl⟩⟩, hnumeral⟩
  · obtain ⟨e, he, h⟩ := bind_eq_ok.mp h
    cases h
    obtain ⟨hopposite, hnumeral⟩ := accesses_opposite he
    exact ⟨bind_eq_ok.mpr ⟨_, hopposite, rfl⟩, hnumeral⟩
  · cases h
    exact ⟨rfl, id⟩
termination_by tokens.length

/-- A minus sign at the start of an operand belongs to the number in it: the operand without the
sign is read as the opposite. -/
theorem operand_minus {stop : Span} {tokens : List Token} {skipped : Nat} {c : Char} {joint : Bool}
    {span : Span} {rest : List Token} {found : Taken Expr}
    (hcomments : comments tokens = .ok skipped)
    (hdrop : tokens.drop skipped = .punct c joint span :: rest)
    (h : operand strength stop tokens = .ok found) :
    c = '-' ∧ (literal? rest).isSome ∧ found.value.IsNumeral ∧
      ∀ other, operand strength stop rest = .ok other →
        found.width = skipped + 1 + other.width ∧ other.value = found.value.opposite := by
  rw [operand, primary_atom hcomments (by simp [hdrop]) (by simp [hdrop]), hdrop] at h
  obtain ⟨_, hbase, h⟩ := bind_eq_ok.mp h
  obtain ⟨base, hatom, hbase⟩ := bind_eq_ok.mp hbase
  cases hbase
  obtain ⟨e, he, h⟩ := bind_eq_ok.mp h
  cases h
  obtain ⟨rfl, negative, numeral, place, width, hliteral, hwidth, hvalue⟩ := atom_punct hatom
  have hnumeral : base.value.IsNumeral := by
    rw [hvalue]
    split
    · exact isNumeral_unsigned numeral
    · exact isNumeral_opposite_iff.mpr (isNumeral_unsigned numeral)
  obtain ⟨hopposite, hkept⟩ := accesses_opposite he
  refine ⟨rfl, by rw [hliteral]; rfl, hkept hnumeral, ?_⟩
  intro other hother
  rw [operand, primary_number hliteral] at hother
  obtain ⟨_, hbase', hother⟩ := bind_eq_ok.mp hother
  obtain ⟨base', hatom', hbase'⟩ := bind_eq_ok.mp hbase'
  cases hbase'
  obtain ⟨hwidth', hvalue'⟩ := atom_number hliteral hatom'
  have hbases : base'.value = base.value.opposite := by
    rw [hvalue, hvalue']
    cases negative <;> simp
  have hrest : tokens.drop (skipped + base.width) = rest.drop base'.width := by
    rw [← List.drop_drop, hdrop, hwidth, hwidth', List.drop_succ_cons]
  rw [hrest, ← hbases] at hopposite
  obtain ⟨e', he', hother⟩ := bind_eq_ok.mp hother
  rw [Nat.zero_add, hopposite] at he'
  cases he'
  cases hother
  refine ⟨?_, rfl⟩
  simp only [hwidth, hwidth']
  omega

/-! ## The prefix form -/

/-- An operator that has to stand first is one that stands first. -/
theorem operator?_of_operator {stop : Span} {tokens : List Token} {op : Taken Operator}
    (h : operator stop tokens = .ok op) : operator? tokens = some op := by
  unfold operator at h
  split at h
  · cases h
    assumption
  · cases h

/-- An operator starts with a mark that starts no comment. -/
theorem exists_of_operator? {tokens : List Token} {op : Taken Operator}
    (h : operator? tokens = some op) :
    ∃ c joint span rest, tokens = .punct c joint span :: rest ∧
      comments (.punct c joint span :: rest) = .ok 0 := by
  unfold operator? at h
  split at h
  · rename_i c joint span rest
    refine ⟨c, joint, span, rest, rfl, comments_punct ?_ joint span rest⟩
    rintro rfl
    cases h
  · cases h

/-- A minus sign before a literal is the operator of a difference. -/
theorem operator?_minus {joint : Bool} {span : Span} {rest : List Token}
    (h : (literal? rest).isSome) : operator? (.punct '-' joint span :: rest) = some ⟨.sub, 1⟩ := by
  unfold literal? at h
  split at h
  · rfl
  · rfl
  · rfl
  · rfl
  · rfl
  · cases joint <;> rfl
  · cases h

/-- Operators after an expression that are also an operand of the prefix form are one minus sign
with a number after it. -/
theorem chain_minus {stop : Span} {lhs : Expr} {tokens : List Token} {found other : Taken Expr}
    (h : chain strength 0 stop lhs tokens = .ok found) (hfound : tokens.drop found.width = [])
    (hoperand : operand strength stop tokens = .ok other) (hother : tokens.drop other.width = []) :
    ∃ rhs, rhs.IsNumeral ∧ found.value = .binary .sub lhs rhs ∧ other.value = rhs.opposite := by
  rw [chain_eq] at h
  obtain ⟨skipped, hskipped, h⟩ := bind_eq_ok.mp h
  split at h
  · -- without an operator the chain takes nothing, so there is no operand either
    cases h
    rw [List.drop_zero] at hfound
    subst hfound
    rw [operand, primary_atom rfl (by simp) (by simp)] at hoperand
    cases hoperand
  · rename_i op hop
    rw [if_neg (Nat.not_lt_zero _)] at h
    obtain ⟨rhs, hrhs, h⟩ := bind_eq_ok.mp h
    obtain ⟨last, hlast, h⟩ := bind_eq_ok.mp h
    cases h
    obtain ⟨c, joint, span, rest, hdrop, -⟩ := exists_of_operator? hop
    obtain ⟨rfl, hliteral, hnumeral, hopposite⟩ := operand_minus hskipped hdrop hoperand
    rw [hdrop, operator?_minus hliteral] at hop
    cases hop
    have hrest : ∀ n, tokens.drop (skipped + 1 + n) = rest.drop n := by
      intro n
      rw [Nat.add_assoc, ← List.drop_drop, hdrop, Nat.add_comm 1 n, List.drop_succ_cons]
    -- the number is all that is left
    rw [← Nat.add_zero (skipped + 1), hrest 0, List.drop_zero, binary] at hrhs
    obtain ⟨number, hnumber, hrhs⟩ := bind_eq_ok.mp hrhs
    obtain ⟨hwidth, hvalue⟩ := hopposite number hnumber
    rw [hwidth, hrest] at hother
    obtain ⟨more, hmore, hrhs⟩ := bind_eq_ok.mp hrhs
    rw [hother, chain_nil] at hmore
    cases hmore
    cases hrhs
    rw [hrest, Nat.add_zero, hother, chain_nil] at hlast
    cases hlast
    refine ⟨number.value, ?_, rfl, ?_⟩
    · rw [hvalue]
      exact isNumeral_opposite_iff.mpr hnumeral
    · rw [hvalue, opposite_opposite]

/-- An expression that is also a prefix form is a difference of two numbers, and the prefix form has
the opposite numbers. -/
theorem difference_of_prefixed {stop : Span} {tokens : List Token} {e e' : Expr}
    (hwhole : whole strength stop tokens = .ok e)
    (hprefixed : prefixed strength stop tokens = .ok e') :
    ∃ lhs rhs, lhs.IsNumeral ∧ rhs.IsNumeral ∧ e = .binary .sub lhs rhs ∧
      e' = .binary .sub lhs.opposite rhs.opposite := by
  obtain ⟨width, hbinary, hend⟩ := whole_eq_ok_iff.mp hwhole
  rw [binary] at hbinary
  obtain ⟨lhs, hlhs, hbinary⟩ := bind_eq_ok.mp hbinary
  obtain ⟨found, hfound, hbinary⟩ := bind_eq_ok.mp hbinary
  cases hbinary
  rw [prefixed] at hprefixed
  obtain ⟨op, hop, hprefixed⟩ := bind_eq_ok.mp hprefixed
  obtain ⟨first, hfirst, hprefixed⟩ := bind_eq_ok.mp hprefixed
  obtain ⟨second, hsecond, hprefixed⟩ := bind_eq_ok.mp hprefixed
  obtain ⟨⟨⟩, hfinish, hprefixed⟩ := bind_eq_ok.mp hprefixed
  cases hprefixed
  have hop' := operator?_of_operator hop
  obtain ⟨c, joint, span, rest, rfl, hcomments⟩ := exists_of_operator? hop'
  obtain ⟨rfl, hliteral, hnumeral, hopposite⟩ := operand_minus hcomments rfl hlhs
  rw [operator?_minus hliteral] at hop'
  cases hop'
  rw [List.drop_succ_cons, List.drop_zero] at hfirst
  obtain ⟨hwidth, hvalue⟩ := hopposite first hfirst
  rw [Nat.zero_add] at hwidth
  rw [← hwidth] at hsecond hfinish
  rw [← List.drop_drop] at hend hfinish
  obtain ⟨rhs, hrhs, he, hsign⟩ :=
    chain_minus hfound hend hsecond (finish_eq_ok_iff.mp hfinish)
  exact ⟨lhs.value, rhs, hnumeral, hrhs, he, by rw [hvalue, hsign]⟩

/-! ## Parentheses -/

/-- A whole expression that starts with an operator starts with a minus sign before a literal. -/
theorem negated?_of_whole {stop : Span} {tokens : List Token} {e : Expr} {op : Taken Operator}
    (h : whole strength stop tokens = .ok e) (hop : operator? tokens = some op) :
    (negated? tokens).isSome ∧ startsMark '-' tokens := by
  obtain ⟨width, hbinary, -⟩ := whole_eq_ok_iff.mp h
  rw [binary] at hbinary
  obtain ⟨lhs, hlhs, -⟩ := bind_eq_ok.mp hbinary
  obtain ⟨c, joint, span, rest, rfl, hcomments⟩ := exists_of_operator? hop
  obtain ⟨rfl, hliteral, -⟩ := operand_minus hcomments rfl hlhs
  refine ⟨?_, rfl⟩
  rw [negated?, Option.isSome_map]
  exact hliteral

/-- What is a whole expression is read in parentheses as the prefix form if it has that form, and as
the whole expression otherwise. -/
theorem parenthesized_of_whole {stop : Span} {tokens : List Token} {e : Expr}
    (h : whole strength stop tokens = .ok e) :
    ∃ e', parenthesized strength stop tokens = .ok e' ∧
      ((∀ p, prefixed strength stop tokens ≠ .ok p) ∧ e' = e ∨
        startsMark '-' tokens ∧ prefixed strength stop tokens = .ok e') := by
  cases hop : operator? tokens with
  | none =>
    refine ⟨e, ?_, Or.inl ⟨?_, rfl⟩⟩
    · rw [parenthesized, hop]
      exact h
    · intro p hprefixed
      rw [prefixed] at hprefixed
      obtain ⟨op, hoperator, -⟩ := bind_eq_ok.mp hprefixed
      rw [operator?_of_operator hoperator] at hop
      cases hop
  | some op =>
    obtain ⟨hnegated, hminus⟩ := negated?_of_whole h hop
    cases hprefixed : prefixed strength stop tokens with
    | ok e' =>
      refine ⟨e', ?_, Or.inr ⟨hminus, rfl⟩⟩
      rw [parenthesized, hop, hprefixed]
      rfl
    | error fault =>
      refine ⟨e, ?_, Or.inl ⟨by simp, rfl⟩⟩
      rw [parenthesized, hop, hprefixed]
      simp only [Option.isSome_some, if_true, hnegated]
      exact h

/-- The tokens of `-1 - 2`. -/
def difference : List Token :=
  [.punct '-' false .origin, .literal (.number ['1']) .origin, .punct '-' false .origin,
    .literal (.number ['2']) .origin]

end Grammar

end ShaderLang
