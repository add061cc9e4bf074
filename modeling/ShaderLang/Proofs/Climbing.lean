import ShaderLang.Grammar.Block
import ShaderLang.Proofs.Outcome

/-!
# Whole expressions

How the readers of an expression depend on the tokens around it.  Where the enclosing group ends
matters for the blame only, and reading a whole text comes down to the reader that wants nothing
after the expression.

Main results:

- Theorem `chain_eq`: the operators of a chain without the choice whether any tokens are left.
- Theorem `binary_stop`: an expression that is read before one end is read before every end.
- Theorem `readAll_binary_eq_ok_iff`: a text is read as an expression exactly if it is a whole
  expression and no comment marker in it holds more than its text.
- Theorem `whole_paren`: a group in parentheses alone is read as what it holds.
-/

namespace ShaderLang

namespace Grammar

variable {strength : Operator → Nat}

/-! ## Operators -/

/-- An operator is spelled by at least one token. -/
theorem width_pos_of_operator? {tokens : List Token} {op : Taken Operator}
    (h : operator? tokens = some op) : 0 < op.width := by
  unfold operator? at h
  split at h
  · obtain ⟨⟨_, double⟩, -, rfl⟩ := Option.map_eq_some_iff.mp h
    cases double with
    | false => exact Nat.one_pos
    | true => exact Nat.two_pos
  · cases h

/-- A chain passes over comments, and goes on if an operator follows that binds tight enough. -/
theorem chain_eq (least : Nat) (stop : Span) (lhs : Expr) (tokens : List Token) :
    chain strength least stop lhs tokens = do
      let skipped ← comments tokens
      match operator? (tokens.drop skipped) with
      | none => return ⟨lhs, 0⟩
      | some op =>
        if strength op.value < least then return ⟨lhs, 0⟩
        else
          let rhs ← binary strength (strength op.value + 1) stop (tokens.drop (skipped + op.width))
          let e ← chain strength least stop (.binary op.value lhs rhs.value)
            (tokens.drop (skipped + op.width + rhs.width))
          return ⟨e.value, skipped + op.width + rhs.width + e.width⟩ := by
  rw [chain]
  refine congrArg _ (funext fun skipped => ?_)
  split
  · rename_i hdrop
    rw [hdrop]
    rfl
  · rename_i token rest hdrop
    have hmore : ∀ n, 0 < n → rest.drop (n - 1) = tokens.drop (skipped + n) := by
      intro n hn
      rw [← List.drop_drop, hdrop]
      cases n with
      | zero => omega
      | succ n => rfl
    rw [hdrop]
    cases hop : operator? (token :: rest) with
    | none => rfl
    | some op =>
      have hwidth : 0 < op.width := width_pos_of_operator? hop
      have hrest : ∀ rhs : Taken Expr, rest.drop (op.width - 1 + rhs.width) =
          tokens.drop (skipped + op.width + rhs.width) := by
        intro rhs
        rw [Nat.add_assoc, ← hmore _ (by omega)]
        congr 1
        omega
      simp only [hmore _ hwidth, hrest]

/-- Before the end of the tokens a chain is done. -/
@[simp]
theorem chain_nil (least : Nat) (stop : Span) (lhs : Expr) :
    chain strength least stop lhs [] = .ok ⟨lhs, 0⟩ := by
  rw [chain_eq]
  rfl

/-- Before the end of the tokens there are no indices and fields. -/
@[simp]
theorem accesses_nil (base : Expr) : accesses strength base [] = .ok ⟨base, 0⟩ := by
  rw [accesses]
  all_goals simp

/-- Only a number sign starts a comment. -/
theorem comments_punct {c : Char} (hc : c ≠ '#') (joint : Bool) (span : Span)
    (rest : List Token) : comments (.punct c joint span :: rest) = .ok 0 := by
  rw [comments]
  rintro _ _ _ _ _ ⟨⟩
  exact hc rfl

/-- Where no group stands after the comments, a primary expression is an atom. -/
theorem primary_atom {tokens : List Token} {skipped : Nat}
    (hcomments : comments tokens = .ok skipped)
    (hgroup : ∀ delim content span rest, tokens.drop skipped ≠ .group delim content span :: rest)
    (hargs : ∀ text place content span rest,
      tokens.drop skipped ≠ .ident text place :: .group .paren content span :: rest) (stop : Span) :
    primary strength stop tokens = do
      let e ← atom stop (tokens.drop skipped)
      return ⟨e.value, skipped + e.width⟩ := by
  rw [primary, hcomments]
  simp only [bind, Except.bind]
  split
  · rename_i hdrop
    exact (hgroup _ _ _ _ hdrop).elim
  · rename_i hdrop
    exact (hgroup _ _ _ _ hdrop).elim
  · rename_i hdrop
    exact (hargs _ _ _ _ _ hdrop).elim
  · rfl

/-- A group in parentheses is a primary expression. -/
theorem primary_paren (stop : Span) (content : List Token) (span : Span) (rest : List Token) :
    primary strength stop (.group .paren content span :: rest) =
      (parenthesized strength span.last content).map fun e => ⟨e, 1⟩ := by
  rw [primary]
  rfl

/-- A name before a group in parentheses is a call. -/
theorem primary_call {name : String} (hconstructor : constructor? name = none)
    (hreserved : Word.isReserved name = false) (stop place : Span) (content : List Token)
    (span : Span) (rest : List Token) :
    primary strength stop (.ident name place :: .group .paren content span :: rest) =
      (items strength span.last content).map fun args => ⟨.call name args, 2⟩ := by
  have hcomments : comments (.ident name place :: .group .paren content span :: rest) = .ok 0 := rfl
  rw [primary, hcomments]
  simp only [bind, Except.bind]
  split
  · rename_i hdrop
    cases hdrop
  · rename_i hdrop
    cases hdrop
  · rename_i hdrop
    cases hdrop
    rw [hconstructor, hreserved]
    rfl
  · rename_i hother
    exact (hother _ _ _ _ _ rfl).elim

/-! ## The end of the enclosing group -/

/-- A literal or name is read before every end. -/
theorem atom_stop {stop : Span} {tokens : List Token} {found : Taken Expr} (stop' : Span)
    (h : atom stop tokens = .ok found) : atom stop' tokens = .ok found := by
  unfold atom at h ⊢
  cases hliteral : literal? tokens with
  | some taken =>
    obtain ⟨⟨constant, span⟩, width⟩ := taken
    rw [hliteral] at h
    cases constant with
    | number negative numeral => exact h
    | truth value => exact h
    | string => exact h
    | other => exact h
  | none =>
    cases hnegated : negated? tokens with
    | some taken =>
      simp only [hliteral, hnegated] at h ⊢
      exact h
    | none =>
      simp only [hliteral, hnegated] at h ⊢
      split at h
      · split at h
        · cases h
        · rename_i hconstructor
          split at h
          · cases h
          · rename_i hreserved
            rw [if_neg hconstructor, if_neg hreserved]
            exact h
      · cases h

/-- A primary expression is read before every end. -/
theorem primary_stop {stop : Span} {tokens : List Token} {found : Taken Expr} (stop' : Span)
    (h : primary strength stop tokens = .ok found) : primary strength stop' tokens = .ok found := by
  rw [primary] at h ⊢
  obtain ⟨skipped, hskipped, h⟩ := bind_eq_ok.mp h
  refine bind_eq_ok.mpr ⟨skipped, hskipped, ?_⟩
  split at h
  · exact h
  · exact h
  · split at h
    · exact h
    · split at h
      · rename_i hreserved
        obtain ⟨e, he, h⟩ := bind_eq_ok.mp h
        simp only [hreserved, if_true]
        exact bind_eq_ok.mpr ⟨e, atom_stop stop' he, h⟩
      · rename_i hfree
        simp only [hfree]
        exact h
  · obtain ⟨e, he, h⟩ := bind_eq_ok.mp h
    exact bind_eq_ok.mpr ⟨e, atom_stop stop' he, h⟩

/-- An operand is read before every end. -/
theorem operand_stop {stop : Span} {tokens : List Token} {found : Taken Expr} (stop' : Span)
    (h : operand strength stop tokens = .ok found) : operand strength stop' tokens = .ok found := by
  rw [operand] at h ⊢
  obtain ⟨base, hbase, h⟩ := bind_eq_ok.mp h
  exact bind_eq_ok.mpr ⟨base, primary_stop stop' hbase, h⟩

mutual

/-- An expression that is read before one end is read before every end. -/
theorem binary_stop {least : Nat} {stop : Span} {tokens : List Token} {found : Taken Expr}
    (stop' : Span) (h : binary strength least stop tokens = .ok found) :
    binary strength least stop' tokens = .ok found := by
  rw [binary] at h ⊢
  obtain ⟨lhs, hlhs, h⟩ := bind_eq_ok.mp h
  obtain ⟨e, he, h⟩ := bind_eq_ok.mp h
  exact bind_eq_ok.mpr ⟨lhs, operand_stop stop' hlhs, bind_eq_ok.mpr ⟨e, chain_stop stop' he, h⟩⟩
termination_by 8 * sizeOf tokens + 4
decreasing_by
  exact rank_lt_of_le (sizeOf_drop_le ..) (by decide)

/-- A chain of operators is read before every end. -/
theorem chain_stop {least : Nat} {stop : Span} {lhs : Expr} {tokens : List Token}
    {found : Taken Expr} (stop' : Span) (h : chain strength least stop lhs tokens = .ok found) :
    chain strength least stop' lhs tokens = .ok found := by
  rw [chain] at h ⊢
  obtain ⟨skipped, hskipped, h⟩ := bind_eq_ok.mp h
  refine bind_eq_ok.mpr ⟨skipped, hskipped, ?_⟩
  split at h
  · exact h
  · rename_i hdrop
    split at h
    · exact h
    · split at h
      · rename_i hweak
        simp only [hweak, if_true]
        exact h
      · rename_i htight
        obtain ⟨rhs, hrhs, h⟩ := bind_eq_ok.mp h
        obtain ⟨e, he, h⟩ := bind_eq_ok.mp h
        simp only [htight, if_false]
        refine bind_eq_ok.mpr ⟨rhs, binary_stop stop' hrhs, ?_⟩
        exact bind_eq_ok.mpr ⟨e, chain_stop stop' he, h⟩
termination_by 8 * sizeOf tokens + 3
decreasing_by
  all_goals exact rank_lt_of_lt (by decide) (sizeOf_lt_of_drop_eq_cons ‹_› _)

end

/-- A whole expression is one before every end. -/
theorem whole_stop {stop : Span} {tokens : List Token} {e : Expr} (stop' : Span)
    (h : whole strength stop tokens = .ok e) : whole strength stop' tokens = .ok e := by
  rw [whole] at h ⊢
  obtain ⟨found, hfound, h⟩ := bind_eq_ok.mp h
  exact bind_eq_ok.mpr ⟨found, binary_stop stop' hfound, h⟩

/-! ## Whole texts -/

/-- No tokens are left exactly if there are none. -/
theorem finish_eq_ok_iff {tokens : List Token} : finish tokens = .ok () ↔ tokens = [] := by
  cases tokens with
  | nil => simp [finish]
  | cons token rest => simp [finish]

/-- A whole expression is one after which no tokens are left. -/
theorem whole_eq_ok_iff {stop : Span} {tokens : List Token} {e : Expr} :
    whole strength stop tokens = .ok e ↔
      ∃ width, binary strength 0 stop tokens = .ok ⟨e, width⟩ ∧ tokens.drop width = [] := by
  rw [whole, bind_eq_ok]
  constructor
  · rintro ⟨⟨value, width⟩, hbinary, h⟩
    obtain ⟨⟨⟩, hfinish, hvalue⟩ := bind_eq_ok.mp h
    cases hvalue
    exact ⟨width, hbinary, finish_eq_ok_iff.mp hfinish⟩
  · rintro ⟨width, hbinary, hdrop⟩
    exact ⟨_, hbinary, bind_eq_ok.mpr ⟨(), finish_eq_ok_iff.mpr hdrop, rfl⟩⟩

/-- A reader has taken a text in full if no tokens are left and no comment marker in it holds more
than its text. -/
theorem complete_eq_ok_iff {α : Type} {tokens : List Token} {found : Taken α} {a : α} :
    complete tokens found = .ok a ↔
      found.value = a ∧ tokens.drop found.width = [] ∧ strays tokens = none := by
  unfold complete
  cases hdrop : tokens.drop found.width with
  | nil =>
    rw [List.take_of_length_le (List.drop_eq_nil_iff.mp hdrop)]
    cases strays tokens with
    | none => simp
    | some span => simp
  | cons token rest =>
    cases strays (tokens.take found.width) with
    | none => simp
    | some span => simp

/-- A text is read in full exactly if all its tokens are taken and no comment marker in it holds
more than its text. -/
theorem readAll_eq_ok_iff {α : Type} {reader : Span → List Token → Except Fault (Taken α)}
    {tokens : List Token} {a : α}
    (hwidth : ∀ found, reader .origin tokens = .ok found → found.width ≤ tokens.length) :
    readAll reader tokens = .ok a ↔
      reader .origin tokens = .ok ⟨a, tokens.length⟩ ∧ strays tokens = none := by
  rw [readAll, bind_eq_ok]
  constructor
  · rintro ⟨⟨value, width⟩, hreader, h⟩
    obtain ⟨rfl, hdrop, hstrays⟩ := complete_eq_ok_iff.mp h
    obtain rfl : width = tokens.length :=
      Nat.le_antisymm (hwidth _ hreader) (List.drop_eq_nil_iff.mp hdrop)
    exact ⟨hreader, hstrays⟩
  · rintro ⟨hreader, hstrays⟩
    exact ⟨_, hreader, complete_eq_ok_iff.mpr ⟨rfl, List.drop_length, hstrays⟩⟩

/-- A text is read as an expression exactly if it is a whole expression and no comment marker in it
holds more than its text. -/
theorem readAll_binary_eq_ok_iff {tokens : List Token} {e : Expr} :
    readAll (binary strength 0) tokens = .ok e ↔
      whole strength .origin tokens = .ok e ∧ strays tokens = none := by
  rw [readAll, bind_eq_ok, whole_eq_ok_iff]
  constructor
  · rintro ⟨⟨value, width⟩, hbinary, h⟩
    obtain ⟨rfl, hdrop, hstrays⟩ := complete_eq_ok_iff.mp h
    exact ⟨⟨width, hbinary, hdrop⟩, hstrays⟩
  · rintro ⟨⟨width, hbinary, hdrop⟩, hstrays⟩
    exact ⟨_, hbinary, complete_eq_ok_iff.mpr ⟨rfl, hdrop, hstrays⟩⟩

/-- A group in parentheses alone is read as what it holds. -/
theorem whole_paren (stop : Span) (content : List Token) (span : Span) :
    whole strength stop [.group .paren content span] =
      parenthesized strength span.last content := by
  rw [whole, binary, operand, primary_paren]
  cases parenthesized strength span.last content with
  | error fault => rfl
  | ok e =>
    simp only [Except.map, bind, Except.bind, pure, Except.pure, List.drop_succ_cons,
      List.drop_zero, accesses_nil, chain_nil, Nat.add_zero]
    rfl

end Grammar

end ShaderLang
