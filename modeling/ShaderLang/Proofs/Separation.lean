import ShaderLang.Proofs.Delimiting
import ShaderLang.Proofs.Ladder

/-!
# Semicolons separate

Statements need no separator, so the reader of a statement decides by what stands ahead where the
statement ends.  It never looks past a semicolon: no operator, index, field, counter or block starts
with one, and it is the second half of no mark.  So a reader finds the same before a semicolon as at
the end of the tokens, and semicolons separate the statements before them from those after them.

Main results:

- Theorem `Separable.bind`: readers that a semicolon does not change may stand one after the other.
- Theorem `binary_separates`: an expression is the same before a semicolon.
- Theorem `stmt_separable`: so is a statement.
- Theorem `semicolons_separate`: the statements of two texts with semicolons between them.
-/

namespace ShaderLang

namespace Grammar

variable {α β : Type} {strength : Operator → Nat}

/-! ## Readers before a semicolon -/

/-- A reader finds the same before a semicolon as at the end of the tokens, and stops before it. -/
structure Separates (run : List Token → Except Fault α) (stop : Nat) (tokens : List Token)
    (a : α) : Prop where
  le_length : stop ≤ tokens.length
  reads : ∀ joint span rest, run (tokens ++ .punct ';' joint span :: rest) = .ok a

/-- A semicolon changes nothing of what a reader finds that goes on after `start` tokens. -/
def Separable (start : Nat) (stop : α → Nat) (run : List Token → Except Fault α) : Prop :=
  ∀ tokens a, start ≤ tokens.length → run tokens = .ok a → Separates run (stop a) tokens a

/-- What is seen in some tokens is the same before a semicolon. -/
def Overlooks (see : List Token → α) : Prop :=
  ∀ tokens joint span rest, see (tokens ++ .punct ';' joint span :: rest) = see tokens

/-- Some tokens before the semicolon may be dropped. -/
theorem Separates.drop {run : List Token → Except Fault α} {n stop : Nat} {tokens : List Token}
    {a : α} (hn : n ≤ tokens.length) (h : Separates run stop (tokens.drop n) a) :
    Separates (fun tokens => run (tokens.drop n)) (n + stop) tokens a := by
  obtain ⟨hlength, hreads⟩ := h
  refine ⟨?_, fun joint span rest => ?_⟩
  · rw [List.length_drop] at hlength
    omega
  · simp only [List.drop_append_of_le_length hn]
    exact hreads joint span rest

section Separable

variable {start n : Nat} {stop : α → Nat} {stop' : β → Nat}

/-- What a reader finds from the first token on is the same before a semicolon. -/
theorem Separable.separates {run : List Token → Except Fault α} (h : Separable 0 stop run)
    {tokens : List Token} {a : α} (ha : run tokens = .ok a) : Separates run (stop a) tokens a :=
  h tokens a (Nat.zero_le _) ha

/-- Readers that a semicolon does not change may stand one after the other. -/
theorem Separable.bind {run : List Token → Except Fault α} {next : α → List Token → Except Fault β}
    (hrun : Separable start stop run) (hnext : ∀ a, Separable (stop a) stop' (next a)) :
    Separable start stop' fun tokens => run tokens >>= fun a => next a tokens := by
  intro tokens b hstart h
  obtain ⟨a, ha, hb⟩ := bind_eq_ok.mp h
  obtain ⟨hlength, hreads⟩ := hrun tokens a hstart ha
  obtain ⟨hlength', hreads'⟩ := hnext a tokens b hlength hb
  refine ⟨hlength', fun joint span rest => bind_eq_ok.mpr ⟨a, ?_, ?_⟩⟩
  · exact hreads joint span rest
  · exact hreads' joint span rest

/-- What a reader finds may be put to use without reading on. -/
theorem Separable.map {run : List Token → Except Fault α} (h : Separable start stop run) {f : α → β}
    (hstop : ∀ a, stop' (f a) = stop a) :
    Separable start stop' fun tokens => run tokens >>= fun a => pure (f a) := by
  intro tokens b hstart hb
  obtain ⟨a, ha, hfound⟩ := bind_eq_ok.mp hb
  cases hfound
  obtain ⟨hlength, hreads⟩ := h tokens a hstart ha
  rw [hstop]
  exact ⟨hlength, fun joint span rest => bind_eq_ok.mpr ⟨a, hreads joint span rest, rfl⟩⟩

/-- A reader that a semicolon does not change may start after some tokens. -/
theorem Separable.drop {reader : List Token → Except Fault α} (h : Separable 0 stop reader)
    (hn : start = n) :
    Separable start (fun a => n + stop a) fun tokens => reader (tokens.drop n) := by
  subst hn
  intro tokens a hstart ha
  exact (h.separates ha).drop hstart

/-- A reader may look ahead for what is the same before a semicolon. -/
theorem Separable.look {see : List Token → β} {place : β → Nat}
    {reader : β → List Token → Except Fault α}
    (hreader : ∀ seen, Separable (place seen) stop (reader seen))
    (hlength : ∀ tokens, place (see tokens) ≤ tokens.length) (hsees : Overlooks see) :
    Separable start stop fun tokens => reader (see tokens) tokens := by
  intro tokens a _ ha
  obtain ⟨hstop, hreads⟩ := hreader (see tokens) tokens a (hlength tokens) ha
  refine ⟨hstop, fun joint span rest => ?_⟩
  rw [hsees]
  exact hreads joint span rest

/-- A steady reader is not changed by what follows, so not by a semicolon. -/
theorem Steady.separable {plain : α → Prop} {run : List Token → Except Fault α}
    (h : Steady start stop plain run) : Separable start stop run := by
  intro tokens a hstart ha
  obtain ⟨hlength, hreads, -⟩ := h tokens a hstart ha
  exact ⟨hlength, fun joint span rest => hreads _⟩

end Separable

/-! ## Marks -/

/-- A semicolon is no part of an operator. -/
theorem overlooks_operator? : Overlooks operator? := by
  intro tokens joint span rest
  rcases tokens with _ | ⟨first, more⟩
  · rfl
  · cases first with
    | punct c joint' span' =>
      have hjoined : spelled? c (joined? joint' (more ++ .punct ';' joint span :: rest)) =
          spelled? c (joined? joint' more) := by
        cases more with
        | nil =>
          cases joint' with
          | false => rfl
          | true => exact spelled?_stop (by decide) c
        | cons second more => cases second <;> rfl
      rw [List.cons_append, operator?, operator?, hjoined]
    | _ => rfl

/-- An operator is spelled by tokens that are there. -/
theorem width_le_of_operator? {tokens : List Token} {op : Taken Operator}
    (h : operator? tokens = some op) : op.width ≤ tokens.length := by
  have hsingle : ∀ c op double, spelled? c none = some (op, double) → double = false := by
    intro c op double hspelled
    unfold spelled? at hspelled
    grind
  unfold operator? at h
  split at h
  · rename_i c joint span rest
    obtain ⟨⟨op, double⟩, hspelled, rfl⟩ := Option.map_eq_some_iff.mp h
    cases rest with
    | nil => simp [hsingle c op double hspelled]
    | cons second rest => cases double <;> simp
  · cases h

/-- A semicolon is no other mark. -/
theorem overlooks_startsMark {c : Char} (hc : c ≠ ';') : Overlooks (startsMark c) := by
  intro tokens joint span rest
  cases tokens with
  | nil => simpa [startsMark] using hc.symm
  | cons first more => cases first <;> rfl

/-- A semicolon is no part of two other marks. -/
theorem overlooks_startsPair {c d : Char} (hc : c ≠ ';') (hd : d ≠ ';') :
    Overlooks (startsPair c d) := by
  intro tokens joint span rest
  cases tokens with
  | nil => simp [startsPair, hc.symm]
  | cons first more =>
    cases first with
    | punct e joint' span' =>
      rw [List.cons_append, startsPair, startsPair, overlooks_startsMark hd]
    | _ => rfl

/-- The comments before a semicolon are those before the end. -/
theorem comments_separates {tokens : List Token} {skipped : Nat}
    (h : comments tokens = .ok skipped) : Separates comments skipped tokens skipped := by
  fun_induction comments tokens generalizing skipped with
  | case1 joint' place content span' more ih =>
    obtain ⟨text, htext, h⟩ := bind_eq_ok.mp h
    obtain ⟨count, hcount, h⟩ := bind_eq_ok.mp h
    cases h
    obtain ⟨hlength, hreads⟩ := ih hcount
    refine ⟨Nat.add_le_add_right hlength 2, fun joint span rest => ?_⟩
    rw [List.cons_append, List.cons_append, comments, htext, hreads]
    rfl
  | case2 tokens hnone =>
    cases h
    refine ⟨Nat.zero_le _, fun joint span rest => ?_⟩
    rcases tokens with _ | ⟨first, _ | ⟨second, more⟩⟩
    · exact comments_punct (by decide) joint span rest
    · rw [comments]
      simp
    · rw [comments]
      simpa using hnone

/-! ## Expressions -/

/-- A literal stands in tokens that are there. -/
theorem width_le_of_literal? {tokens : List Token} {found : Taken (Constant × Span)}
    (h : literal? tokens = some found) : found.width ≤ tokens.length := by
  unfold literal? at h
  split at h <;> cases h <;> simp

/-- A literal or a name stands in tokens that are there. -/
theorem width_le_of_atom {stop : Span} {tokens : List Token} {found : Taken Expr}
    (h : atom stop tokens = .ok found) : found.width ≤ tokens.length := by
  unfold atom at h
  split at h
  · rename_i hfound
    cases h
    exact width_le_of_literal? hfound
  · rename_i hfound
    rw [(blame_eq_ok h).1]
    exact width_le_of_literal? hfound
  · split at h
    · rename_i hnegated
      rw [(blame_eq_ok h).1]
      unfold negated? at hnegated
      split at hnegated
      · obtain ⟨taken, htaken, heq⟩ := Option.map_eq_some_iff.mp hnegated
        obtain ⟨-, rfl⟩ := Taken.mk.injEq .. ▸ heq
        exact Nat.succ_le_succ (width_le_of_literal? htaken)
      · cases hnegated
    · split at h
      · split at h
        · cases h
        · split at h
          · cases h
          · cases h
            simp
      · cases h

/-- A primary expression before which no comments stand is in tokens that are there. -/
theorem width_le_of_lead {stop : Span} {tokens : List Token} {found : Taken Expr}
    (h : lead strength stop tokens = .ok found) : found.width ≤ tokens.length := by
  unfold lead at h
  split at h
  · obtain ⟨e, -, rfl⟩ := map_eq_ok.mp h
    simp
  · obtain ⟨e, -, rfl⟩ := map_eq_ok.mp h
    simp
  · split at h
    · obtain ⟨e, -, rfl⟩ := map_eq_ok.mp h
      simp
    · split at h
      · exact width_le_of_atom h
      · obtain ⟨e, -, rfl⟩ := map_eq_ok.mp h
        simp
  · exact width_le_of_atom h

/-- A primary expression stands in tokens that are there. -/
theorem width_le_of_primary {stop : Span} {tokens : List Token} {found : Taken Expr}
    (h : primary strength stop tokens = .ok found) : found.width ≤ tokens.length := by
  cases hskipped : comments tokens with
  | error fault =>
    rw [primary, hskipped] at h
    cases h
  | ok skipped =>
    rw [primary_eq hskipped, map_eq_ok] at h
    obtain ⟨lhs, hlhs, rfl⟩ := h
    have hlength := (comments_separates hskipped).le_length
    have hwidth := width_le_of_lead hlhs
    rw [List.length_drop] at hwidth
    dsimp only
    omega

/-- A primary expression is the same before a semicolon. -/
theorem primary_separable (stop : Span) : Separable 0 Taken.width (primary strength stop) :=
  fun _ _ _ h => ⟨width_le_of_primary h, primary_append h ';'⟩

/-- Indices and fields stand in tokens that are there. -/
theorem width_le_of_accesses {base : Expr} {tokens : List Token} {found : Taken Expr}
    (h : accesses strength base tokens = .ok found) : found.width ≤ tokens.length := by
  unfold accesses at h
  split at h
  · obtain ⟨position, -, h⟩ := bind_eq_ok.mp h
    obtain ⟨e, he, h⟩ := bind_eq_ok.mp h
    cases h
    exact Nat.succ_le_succ (width_le_of_accesses he)
  · obtain ⟨e, he, h⟩ := bind_eq_ok.mp h
    cases h
    exact Nat.add_le_add_right (width_le_of_accesses he) 2
  · cases h
    exact Nat.zero_le _
termination_by tokens.length

/-- Indices and fields are the same before a semicolon. -/
theorem accesses_separable (base : Expr) : Separable 0 Taken.width (accesses strength base) :=
  fun _ _ _ h => ⟨width_le_of_accesses h, accesses_append h (by decide)⟩

/-- An operand is the same before a semicolon. -/
theorem operand_separable (stop : Span) : Separable 0 Taken.width (operand strength stop) := by
  have hoperand : operand strength stop = fun tokens => do
      let base ← primary strength stop tokens
      let e ← accesses strength base.value (tokens.drop base.width)
      return ⟨e.value, base.width + e.width⟩ := by
    funext tokens
    rw [operand]
  rw [hoperand]
  refine Separable.bind (primary_separable stop) fun base => ?_
  exact ((accesses_separable base.value).drop rfl).map fun _ => rfl

mutual

/-- An expression is the same before a semicolon. -/
theorem binary_separates {least : Nat} {stop : Span} {tokens : List Token} {found : Taken Expr}
    (h : binary strength least stop tokens = .ok found) :
    Separates (binary strength least stop) found.width tokens found := by
  rw [binary] at h
  obtain ⟨lhs, hlhs, h⟩ := bind_eq_ok.mp h
  obtain ⟨e, he, h⟩ := bind_eq_ok.mp h
  cases h
  have hoperand := (operand_separable stop).separates hlhs
  have hchain := (chain_separates he).drop hoperand.le_length
  refine ⟨hchain.le_length, fun joint span rest => ?_⟩
  rw [binary]
  refine bind_eq_ok.mpr ⟨lhs, hoperand.reads joint span rest, ?_⟩
  exact bind_eq_ok.mpr ⟨e, hchain.reads joint span rest, rfl⟩
termination_by 2 * tokens.length + 1
decreasing_by
  simp only [List.length_drop]
  omega

/-- The operators of a chain, with their right operands, are the same before a semicolon. -/
theorem chain_separates {least : Nat} {stop : Span} {lhs : Expr} {tokens : List Token}
    {found : Taken Expr} (h : chain strength least stop lhs tokens = .ok found) :
    Separates (chain strength least stop lhs) found.width tokens found := by
  rw [chain_eq] at h
  obtain ⟨skipped, hskipped, h⟩ := bind_eq_ok.mp h
  obtain ⟨hlength, hcomments⟩ := comments_separates hskipped
  -- comments count only if an operator follows, so it is looked for behind them
  have hoperator : ∀ joint span rest,
      operator? ((tokens ++ Token.punct ';' joint span :: rest).drop skipped) =
        operator? (tokens.drop skipped) := by
    intro joint span rest
    rw [List.drop_append_of_le_length hlength, overlooks_operator?]
  cases hop : operator? (tokens.drop skipped) with
  | none =>
    rw [hop] at h
    cases h
    refine ⟨Nat.zero_le _, fun joint span rest => ?_⟩
    rw [chain_eq]
    refine bind_eq_ok.mpr ⟨skipped, hcomments joint span rest, ?_⟩
    rw [hoperator, hop]
    rfl
  | some op =>
    simp only [hop] at h
    by_cases hweak : strength op.value < least
    · rw [if_pos hweak] at h
      cases h
      refine ⟨Nat.zero_le _, fun joint span rest => ?_⟩
      rw [chain_eq]
      refine bind_eq_ok.mpr ⟨skipped, hcomments joint span rest, ?_⟩
      simp only [hoperator, hop, if_pos hweak]
      rfl
    · rw [if_neg hweak] at h
      obtain ⟨rhs, hrhs, h⟩ := bind_eq_ok.mp h
      obtain ⟨e, he, h⟩ := bind_eq_ok.mp h
      cases h
      have hpos := width_pos_of_operator? hop
      have hmark : skipped + op.width ≤ tokens.length := by
        have hwidth := width_le_of_operator? hop
        rw [List.length_drop] at hwidth
        omega
      have hbinary := (binary_separates hrhs).drop hmark
      have hchain := (chain_separates he).drop hbinary.le_length
      refine ⟨hchain.le_length, fun joint span rest => ?_⟩
      rw [chain_eq]
      refine bind_eq_ok.mpr ⟨skipped, hcomments joint span rest, ?_⟩
      simp only [hoperator, hop, if_neg hweak]
      refine bind_eq_ok.mpr ⟨rhs, hbinary.reads joint span rest, ?_⟩
      exact bind_eq_ok.mpr ⟨e, hchain.reads joint span rest, rfl⟩
termination_by 2 * tokens.length
decreasing_by
  · simp only [List.length_drop]
    omega
  · simp only [List.length_drop]
    omega

end

/-! ## Statements -/

/-- An expression is the same before a semicolon. -/
theorem expr_separable (stop : Span) : Separable 0 Taken.width (expr stop) :=
  fun _ _ _ h => binary_separates h

/-- The number of equals signs before an assigned value. -/
def signsBefore (tokens : List Token) : Nat :=
  if startsMark '=' tokens && !startsPair '=' '=' tokens then 1 else 0

/-- An equals sign before a value is one of the tokens. -/
theorem signsBefore_le (tokens : List Token) : signsBefore tokens ≤ tokens.length := by
  cases tokens with
  | nil => exact Nat.le_refl 0
  | cons token rest =>
    unfold signsBefore
    split <;> simp

/-- A semicolon is no equals sign, and makes no pair of one. -/
theorem overlooks_signsBefore : Overlooks signsBefore := by
  intro tokens joint span rest
  unfold signsBefore
  rw [overlooks_startsMark (by decide), overlooks_startsPair (by decide) (by decide)]

/-- A value with or without an equals sign is the same before a semicolon. -/
theorem assigned_separable (stop : Span) : Separable 0 Taken.width (assigned stop) := by
  have hvalue : ∀ sign : Nat, Separable sign Taken.width fun tokens => do
      let value ← expr stop (tokens.drop sign)
      return (⟨value.value, sign + value.width⟩ : Taken Expr) :=
    fun sign => ((expr_separable stop).drop rfl).map fun _ => rfl
  exact (Separable.look hvalue signsBefore_le overlooks_signsBefore :)

/-- A type, a name and a value are the same before a semicolon. -/
theorem binding_separable (stop : Span) : Separable 0 Taken.width (binding stop) := by
  change Separable 0 _ fun tokens => binding stop tokens
  simp only [binding, List.drop_drop, ← Nat.add_assoc]
  refine Separable.bind (steady_ty stop).separable fun ty => ?_
  refine Separable.bind (((steady_name stop).congr (width_name stop)).separable.drop rfl)
    fun name => ?_
  refine Separable.bind ((steady_mark (by decide) stop).separable.drop rfl) fun _ => ?_
  exact ((expr_separable stop).drop rfl).map fun _ => rfl

/-- A name and the value assigned to it are the same before a semicolon. -/
theorem assignment_separable (stop : Span) : Separable 0 Taken.width (assignment stop) := by
  refine Separable.bind ((steady_name stop).congr (width_name stop)).separable fun name => ?_
  exact ((assigned_separable stop).drop rfl).map fun _ => rfl

/-- Take what may follow the first block of a branch: a second block, a further branch, or
nothing. -/
def otherwise (stop : Span) : List Token → Except Fault (Taken Block)
  | .ident "else" _ :: .ident "if" _ :: rest => do
    let no ← branch stop rest
    return ⟨Block.ofStmts [no.value], no.width + 2⟩
  | .ident "else" _ :: rest => do
    let no ← braced stop rest
    return ⟨no, 2⟩
  | _ => return ⟨Block.empty, 0⟩

/-- A branch is a condition, a block, and what may follow that. -/
theorem branch_eq (stop : Span) (tokens : List Token) :
    branch stop tokens = do
      let cond ← expr stop tokens
      let yes ← braced stop (tokens.drop cond.width)
      let no ← otherwise stop (tokens.drop (cond.width + 1))
      return ⟨.branch cond.value yes no.value, cond.width + 1 + no.width⟩ := by
  rw [branch]
  refine bind_congr fun cond => bind_congr fun yes => ?_
  split
  · rename_i hdrop
    rw [hdrop, otherwise, bind_assoc]
    refine bind_congr fun no => ?_
    simp only [pure_bind]
    congr 2
    omega
  · rename_i hif hdrop
    rw [hdrop, otherwise, bind_assoc]
    · rfl
    · exact hif
  · rename_i hif helse
    rw [otherwise]
    · rfl
    · exact hif
    · exact helse

mutual

/-- A branch is the same before a semicolon. -/
theorem branch_separates {stop : Span} {tokens : List Token} {found : Taken Expr}
    (h : branch stop tokens = .ok found) : Separates (branch stop) found.width tokens found := by
  rw [branch_eq] at h
  obtain ⟨cond, hcond, h⟩ := bind_eq_ok.mp h
  obtain ⟨yes, hyes, h⟩ := bind_eq_ok.mp h
  obtain ⟨no, hno, h⟩ := bind_eq_ok.mp h
  cases h
  have hexpr := (expr_separable stop).separates hcond
  have hbraced := ((steady_braced stop).separable.separates hyes).drop hexpr.le_length
  have hotherwise := (otherwise_separates hno).drop hbraced.le_length
  refine ⟨hotherwise.le_length, fun joint span rest => ?_⟩
  rw [branch_eq]
  refine bind_eq_ok.mpr ⟨cond, hexpr.reads joint span rest, ?_⟩
  refine bind_eq_ok.mpr ⟨yes, hbraced.reads joint span rest, ?_⟩
  exact bind_eq_ok.mpr ⟨no, hotherwise.reads joint span rest, rfl⟩
termination_by 2 * tokens.length + 1
decreasing_by
  simp only [List.length_drop]
  omega

/-- What follows the first block of a branch is the same before a semicolon. -/
theorem otherwise_separates {stop : Span} {tokens : List Token} {found : Taken Block}
    (h : otherwise stop tokens = .ok found) :
    Separates (otherwise stop) found.width tokens found := by
  unfold otherwise at h
  split at h
  · rename_i place place' more
    obtain ⟨no, hno, h⟩ := bind_eq_ok.mp h
    cases h
    obtain ⟨hlength, hreads⟩ := branch_separates hno
    refine ⟨Nat.add_le_add_right hlength 2, fun joint span rest => ?_⟩
    rw [List.cons_append, List.cons_append, otherwise]
    exact bind_eq_ok.mpr ⟨no, hreads joint span rest, rfl⟩
  · rename_i place more hif
    obtain ⟨no, hno, h⟩ := bind_eq_ok.mp h
    cases h
    obtain ⟨hlength, hreads⟩ := (steady_braced stop).separable.separates hno
    refine ⟨Nat.succ_le_succ hlength, fun joint span rest => ?_⟩
    rw [List.cons_append, otherwise]
    · exact bind_eq_ok.mpr ⟨no, hreads joint span rest, rfl⟩
    · intro place' after heq
      cases more with
      | nil => cases heq
      | cons first more => exact hif place' more (by rw [(List.cons.inj heq).1])
  · rename_i hif helse
    cases h
    refine ⟨Nat.zero_le _, fun joint span rest => ?_⟩
    cases tokens with
    | nil => rfl
    | cons first more =>
      have hfirst : ∀ place after,
          first :: more ++ Token.punct ';' joint span :: rest ≠ .ident "else" place :: after :=
        fun place after heq => helse place more (by rw [(List.cons.inj heq).1])
      rw [otherwise]
      · rfl
      · exact fun place place' after heq => hfirst place _ heq
      · exact hfirst
termination_by 2 * tokens.length

end

/-- The counter of a loop stands in tokens that are there. -/
theorem counter?_le (tokens : List Token) :
    (if (counter? tokens).isSome then 2 else 0) ≤ tokens.length := by
  unfold counter?
  split
  · split <;> simp
  · simp

/-- A semicolon is not part of the counter of a loop. -/
theorem overlooks_counter? : Overlooks counter? := by
  intro tokens joint span rest
  rcases tokens with _ | ⟨first, _ | ⟨second, more⟩⟩
  · rfl
  · cases first <;> rfl
  · cases first with
    | ident name place =>
      unfold counter?
      grind
    | _ => rfl

/-- Take a loop after its first word and with its counter. -/
def loopAfter (stop : Span) (counter : Option String) (tokens : List Token) :
    Except Fault (Taken Expr) := do
  let before := if counter.isSome then 2 else 0
  let bound ← expr stop (tokens.drop before)
  let _ ← word "do" stop (tokens.drop (before + bound.width))
  let body ← braced stop (tokens.drop (before + bound.width + 1))
  return ⟨.loop bound.value counter body, before + bound.width + 2⟩

/-- A loop is the same before a semicolon. -/
theorem loopAfter_separable (stop : Span) :
    Separable 0 Taken.width fun tokens => loopAfter stop (counter? tokens) tokens := by
  have hloop : ∀ counter : Option String,
      Separable (if counter.isSome then 2 else 0) Taken.width (loopAfter stop counter) := by
    intro counter
    refine Separable.bind ((expr_separable stop).drop rfl) fun bound => ?_
    refine Separable.bind ((steady_word "do" stop).separable.drop rfl) fun _ => ?_
    exact ((steady_braced stop).separable.drop rfl).map fun _ => rfl
  exact (Separable.look hloop counter?_le overlooks_counter? :)

/-- The reader of what stands after the first word of a statement. -/
def clause? (stop : Span) : String → Option (List Token → Except Fault (Taken Expr))
  | "let" => some fun tokens => do
    let found ← binding stop tokens
    return ⟨.constant found.value.1 found.value.2.1 found.value.2.2, found.width⟩
  | "mut" => some fun tokens => do
    let found ← binding stop tokens
    return ⟨.mutable found.value.1 found.value.2.1 found.value.2.2, found.width⟩
  | "set" => some fun tokens => do
    let found ← assignment stop tokens
    return ⟨.update found.value.1 found.value.2, found.width⟩
  | "out" => some fun tokens => do
    let found ← assignment stop tokens
    return ⟨.output found.value.1 found.value.2, found.width⟩
  | "if" => some (branch stop)
  | "for" => some fun tokens => loopAfter stop (counter? tokens) tokens
  | _ => none

/-- What stands after the first word of a statement is the same before a semicolon. -/
theorem clause?_separable {stop : Span} {text : String}
    {reader : List Token → Except Fault (Taken Expr)} (h : clause? stop text = some reader) :
    Separable 0 Taken.width reader := by
  unfold clause? at h
  split at h
  case h_1 | h_2 =>
    cases h
    exact (binding_separable stop).map fun _ => rfl
  case h_3 | h_4 =>
    cases h
    exact (assignment_separable stop).map fun _ => rfl
  · cases h
    exact fun _ _ _ h => branch_separates h
  · cases h
    exact loopAfter_separable stop
  · cases h

/-- A statement that starts with a word of its own is read after that word. -/
theorem stmt_clause {stop : Span} {text : String} {reader : List Token → Except Fault (Taken Expr)}
    (h : clause? stop text = some reader) (span : Span) (rest : List Token) :
    stmt stop (.ident text span :: rest) = do
      let found ← reader rest
      return ⟨found.value, found.width + 1⟩ := by
  unfold clause? at h
  split at h
  case h_1 | h_2 | h_3 | h_4 =>
    cases h
    rw [stmt, bind_assoc]
    rfl
  · cases h
    rw [stmt]
  · cases h
    rw [stmt]
    simp only [loopAfter, bind_assoc]
    rfl
  · cases h

/-- A statement without a word of its own is a comment or an expression. -/
theorem stmt_unmarked {stop : Span} {tokens : List Token}
    (h : ∀ text span rest, tokens = .ident text span :: rest → clause? stop text = none) :
    stmt stop tokens = if startsComment tokens then comment stop tokens else expr stop tokens := by
  rw [stmt]
  all_goals
    rintro span rest rfl
    cases h _ span rest rfl

/-- A statement starts with a word of its own, or it does not. -/
theorem clause_or_unmarked (stop : Span) (tokens : List Token) :
    (∃ text place more reader,
      tokens = .ident text place :: more ∧ clause? stop text = some reader) ∨
      ∀ text place more, tokens = .ident text place :: more → clause? stop text = none := by
  by_cases hclause : ∃ text place more reader,
      tokens = .ident text place :: more ∧ clause? stop text = some reader
  · exact Or.inl hclause
  · right
    intro text place more heq
    by_contra hsome
    obtain ⟨reader, hreader⟩ := Option.ne_none_iff_exists'.mp hsome
    exact hclause ⟨text, place, more, reader, heq, hreader⟩

/-- A semicolon is not part of a comment marker. -/
theorem overlooks_startsComment : Overlooks startsComment := by
  intro tokens joint span rest
  rcases tokens with _ | ⟨first, _ | ⟨second, more⟩⟩
  · rfl
  · simp [startsComment]
  · unfold startsComment
    grind

/-- A comment marker is the same before a semicolon. -/
theorem comment_separable (stop : Span) : Separable 0 Taken.width (comment stop) := by
  intro tokens found _ h
  obtain ⟨_, hmark, h⟩ := bind_eq_ok.mp h
  obtain ⟨joint, place, more, rfl⟩ := startsMark_iff.mp (of_ite_eq_ok hmark)
  split at h
  · rename_i content place' after hmore
    obtain ⟨e, he, h⟩ := bind_eq_ok.mp h
    cases h
    obtain rfl : more = _ := hmore
    refine ⟨by simp, fun joint span rest => ?_⟩
    exact bind_eq_ok.mpr ⟨⟨(), 1⟩, rfl, bind_eq_ok.mpr ⟨e, he, rfl⟩⟩
  · cases h

/-- A comment or an expression is the same before a semicolon. -/
theorem unmarked_separable (stop : Span) : Separable 0 Taken.width fun tokens =>
    if startsComment tokens then comment stop tokens else expr stop tokens := by
  have hchoice : ∀ isComment : Bool, Separable 0 Taken.width fun tokens =>
      if isComment then comment stop tokens else expr stop tokens := by
    intro isComment
    cases isComment with
    | true => exact comment_separable stop
    | false => exact expr_separable stop
  exact (Separable.look hchoice (fun _ => Nat.zero_le _) overlooks_startsComment :)

/-- A statement is the same before a semicolon. -/
theorem stmt_separable (stop : Span) : Separable 0 Taken.width (stmt stop) := by
  intro tokens found _ h
  rcases clause_or_unmarked stop tokens with ⟨text, place, more, reader, rfl, hreader⟩ | hnone
  · rw [stmt_clause hreader] at h
    obtain ⟨e, he, h⟩ := bind_eq_ok.mp h
    cases h
    obtain ⟨hlength, hreads⟩ := (clause?_separable hreader).separates he
    refine ⟨Nat.succ_le_succ hlength, fun joint span rest => ?_⟩
    rw [List.cons_append, stmt_clause hreader]
    exact bind_eq_ok.mpr ⟨e, hreads joint span rest, rfl⟩
  · -- a semicolon that stands first is no word
    have hnone' : ∀ joint span rest text place more,
        tokens ++ Token.punct ';' joint span :: rest = .ident text place :: more →
          clause? stop text = none := by
      intro joint span rest text place more heq
      cases tokens with
      | nil => cases heq
      | cons first after => exact hnone text place after (by rw [(List.cons.inj heq).1])
    rw [stmt_unmarked hnone] at h
    obtain ⟨hlength, hreads⟩ := (unmarked_separable stop).separates h
    refine ⟨hlength, fun joint span rest => ?_⟩
    rw [stmt_unmarked (hnone' joint span rest)]
    exact hreads joint span rest

/-! ## Blocks -/

/-- A semicolon between statements is passed over. -/
theorem stmts_semicolon (stop : Span) (joint : Bool) (span : Span) (rest : List Token) :
    stmts stop (.punct ';' joint span :: rest) = stmts stop rest := by
  rw [stmts]
  exact if_pos (beq_self_eq_true ';')

/-- The statements before a semicolon come before those after it. -/
theorem stmts_append {stop : Span} {tokens : List Token} {first : List Expr}
    (h : stmts stop tokens = .ok first) (joint : Bool) (span : Span) (rest : List Token) :
    stmts stop (tokens ++ .punct ';' joint span :: rest) = (stmts stop rest).map (first ++ ·) := by
  match tokens, h with
  | [], h =>
    rw [stmts] at h
    cases h
    rw [List.nil_append, stmts_semicolon]
    cases stmts stop rest <;> rfl
  | token :: more, h =>
    have hmark : startsMark ';' (token :: (more ++ Token.punct ';' joint span :: rest)) =
        startsMark ';' (token :: more) := by
      cases token <;> rfl
    rw [stmts] at h
    rw [List.cons_append, stmts, hmark]
    by_cases hsemicolon : startsMark ';' (token :: more) = true
    · rw [if_pos hsemicolon] at h ⊢
      exact stmts_append h joint span rest
    · rw [if_neg hsemicolon] at h ⊢
      obtain ⟨found, hfound, h⟩ := bind_eq_ok.mp h
      obtain ⟨others, hothers, h⟩ := bind_eq_ok.mp h
      cases h
      obtain ⟨hlength, hreads⟩ := (stmt_separable stop).separates hfound
      have hdrop : (more ++ Token.punct ';' joint span :: rest).drop (found.width - 1) =
          more.drop (found.width - 1) ++ Token.punct ';' joint span :: rest :=
        List.drop_append_of_le_length (Nat.sub_le_of_le_add hlength)
      rw [← List.cons_append, hreads]
      simp only [bind, Except.bind, hdrop, stmts_append hothers joint span rest]
      cases stmts stop rest <;> rfl
termination_by tokens.length

/-- The strays before a semicolon come before those after it. -/
theorem strays_semicolon (tokens : List Token) (joint : Bool) (span : Span) (rest : List Token) :
    strays (tokens ++ .punct ';' joint span :: rest) = (strays tokens).or (strays rest) := by
  rw [strays_append_of_startsGroup tokens rfl, strays_punct (by decide)]

/-- A text is read as a block exactly if all of it is statements and no comment marker in it holds
more than its text. -/
theorem readBlock_eq_ok_iff {tokens : List Token} {b : Block} :
    readBlock tokens = .ok b ↔
      ∃ found, stmts .origin tokens = .ok found ∧ Block.ofStmts found = b ∧
        strays tokens = none := by
  rw [readBlock, bind_eq_ok]
  constructor
  · rintro ⟨_, hblock, h⟩
    obtain ⟨found, hfound, hvalue⟩ := bind_eq_ok.mp hblock
    cases hvalue
    obtain ⟨hb, -, hstrays⟩ := complete_eq_ok_iff.mp h
    exact ⟨found, hfound, hb, hstrays⟩
  · rintro ⟨found, hfound, hb, hstrays⟩
    refine ⟨Block.ofStmts found, bind_eq_ok.mpr ⟨found, hfound, rfl⟩, ?_⟩
    exact complete_eq_ok_iff.mpr ⟨hb, List.drop_length, hstrays⟩

/-- Semicolons before a block mean nothing. -/
theorem readBlock_semicolons {marks tokens : List Token} {b : Block}
    (hmarks : ∀ mark ∈ marks, ∃ joint span, mark = .punct ';' joint span)
    (h : readBlock tokens = .ok b) : readBlock (marks ++ tokens) = .ok b := by
  induction marks with
  | nil => exact h
  | cons mark marks ih =>
    obtain ⟨⟨joint, span, rfl⟩, hrest⟩ := List.forall_mem_cons.mp hmarks
    obtain ⟨found, hfound, hb, hstrays⟩ := readBlock_eq_ok_iff.mp (ih hrest)
    rw [List.cons_append, readBlock_eq_ok_iff, stmts_semicolon, strays_punct (by decide)]
    exact ⟨found, hfound, hb, hstrays⟩

/-- Semicolons separate: the statements of two texts that are read as blocks are the statements of
the first before semicolons and then those of the second. -/
theorem semicolons_separate {x y marks : List Token} {b c : Block} (hx : readBlock x = .ok b)
    (hy : readBlock y = .ok c) (hne : marks ≠ [])
    (hmarks : ∀ mark ∈ marks, ∃ joint span, mark = .punct ';' joint span) :
    readBlock (x ++ (marks ++ y)) = .ok (.ofStmts (b.stmts ++ c.stmts)) ∧
      (Block.ofStmts (b.stmts ++ c.stmts)).stmts = b.stmts ++ c.stmts := by
  obtain ⟨mark, others, rfl⟩ := List.exists_cons_of_ne_nil hne
  obtain ⟨⟨joint, span, rfl⟩, hothers⟩ := List.forall_mem_cons.mp hmarks
  obtain ⟨first, hfirst, rfl, hstrays⟩ := readBlock_eq_ok_iff.mp hx
  obtain ⟨second, hsecond, rfl, hstrays'⟩ :=
    readBlock_eq_ok_iff.mp (readBlock_semicolons hothers hy)
  constructor
  · rw [List.cons_append, readBlock_eq_ok_iff, stmts_append hfirst, hsecond, strays_semicolon,
      hstrays, hstrays']
    refine ⟨first ++ second, rfl, ?_, rfl⟩
    simp [Block.ofStmts, Block.stmts]
  · simp

/-- The tokens of a name. -/
def nameTokens : List Token :=
  [.ident "f" .origin]

/-- The tokens of an array, which are those of an index too. -/
def arrayTokens : List Token :=
  [.group .bracket [.literal (.number ['1']) .origin] .origin]

/-- Two semicolons, the first joined to the second. -/
def twoSemicolons : List Token :=
  [.punct ';' true .origin, .punct ';' false .origin]

/-- After semicolons an array is a statement of its own; without them it is an index. -/
theorem semicolons_separate_array :
    readBlock nameTokens = .ok [.ref "f", .done] ∧
      readBlock arrayTokens = .ok [.array [.int 1], .done] ∧
      readBlock (nameTokens ++ (twoSemicolons ++ arrayTokens)) =
        .ok [.ref "f", .array [.int 1], .done] ∧
      readBlock (nameTokens ++ arrayTokens) = .ok [.index (.ref "f") (.int 1), .done] := by
  have hname : readBlock nameTokens = .ok [.ref "f", .done] := by
    with_unfolding_all rfl
  have harray : readBlock arrayTokens = .ok [.array [.int 1], .done] := by
    with_unfolding_all rfl
  have hmarks : ∀ mark ∈ twoSemicolons, ∃ joint span, mark = .punct ';' joint span := by
    simp [twoSemicolons]
  have hindex : readBlock (nameTokens ++ arrayTokens) = .ok [.index (.ref "f") (.int 1), .done] := by
    set_option maxRecDepth 2000 in
    with_unfolding_all rfl
  refine ⟨hname, harray, ?_, hindex⟩
  exact (semicolons_separate hname harray (by simp [twoSemicolons]) hmarks).1

end Grammar

end ShaderLang
