import Mathlib.Algebra.Group.Nat.Defs
import ShaderLang.Proofs.Climbing
import ShaderLang.Proofs.Lexing

/-!
# Tokens that spell an expression

`Spells e tokens` says that tokens are read as `e` by every reader of expressions, whatever the
binding strengths of the operators are, and `SpellsOperand e tokens` that they are read as an
operand.  Each construct has a lemma that builds its tokens from those of its parts.

Main results:

- Theorem `Spells.binary`: two operands with an operator between them are read as an operation,
  whatever the operators bind like.
- Theorem `SpellsOperand.paren`: an expression in parentheses is read as an operand.
- Theorem `SpellsOperand.access`: an operand goes on with indices and fields.
- Theorem `SpellsAll.cons`: expressions are read with commas between them.
-/

namespace ShaderLang

namespace Grammar

/-! ## Tokens of expressions -/

/-- Tokens that start with no mark and hold no comment marker. -/
structure Unmarked (tokens : List Token) : Prop where
  first : ∃ token rest, tokens = token :: rest ∧ ∀ c joint span, token ≠ .punct c joint span
  strays : ∀ after, strays (tokens ++ after) = strays after

/-- Tokens after which an expression in a group is over: none, or a comma. -/
inductive Halts : List Token → Prop where
  | nil : Halts []
  | comma (joint : Bool) (span : Span) (rest : List Token) : Halts (.punct ',' joint span :: rest)

/-- Tokens that are read as an expression where it is over after them. -/
structure Spells (e : Expr) (tokens : List Token) : Prop extends Unmarked tokens where
  reads : ∀ strength stop after, Halts after →
    binary strength 0 stop (tokens ++ after) = .ok ⟨e, tokens.length⟩

/-- Tokens that are read as an operand up to the indices and fields after them. -/
structure SpellsOperand (e : Expr) (tokens : List Token) : Prop extends Unmarked tokens where
  reads : ∀ strength stop after, startsGroup .paren after = false →
    operand strength stop (tokens ++ after) = do
      let found ← accesses strength e after
      return ⟨found.value, tokens.length + found.width⟩

/-- Tokens that are read as an operator. -/
structure SpellsOperator (op : Operator) (tokens : List Token) : Prop where
  first : ∃ c joint span rest, tokens = .punct c joint span :: rest ∧ c ≠ '#' ∧ c ≠ '.'
  strays : ∀ after, strays (tokens ++ after) = strays after
  reads : ∀ after, operator? (tokens ++ after) = some ⟨op, tokens.length⟩

/-- Tokens that are read as expressions with commas between them. -/
structure SpellsAll (es : List Expr) (tokens : List Token) : Prop where
  strays : strays tokens = none
  reads : ∀ strength stop, items strength stop tokens = .ok es

/-! ## Comment markers -/

/-- Only a number sign starts a comment marker. -/
theorem strays_punct {c : Char} (hc : c ≠ '#') (joint : Bool) (span : Span) (rest : List Token) :
    strays (.punct c joint span :: rest) = strays rest := by
  rw [strays]
  all_goals simp [hc]

/-- The strays of tokens come before those of more tokens that do not start with brackets. -/
theorem strays_append_of_startsGroup (tokens : List Token) {rest : List Token}
    (hrest : startsGroup .bracket rest = false) :
    strays (tokens ++ rest) = (strays tokens).or (strays rest) := by
  fun_induction strays tokens with
  | case1 joint place content place' more token after hdrop =>
    rw [List.cons_append, List.cons_append, strays, hdrop]
    rfl
  | case2 joint place content place' more hdrop ih =>
    rw [List.cons_append, List.cons_append, strays, hdrop]
    exact ih
  | case3 delim content place more ihcontent ih =>
    rw [List.cons_append, strays, ih, Option.or_assoc]
  | case4 token more hmarker hgroup ih =>
    rw [List.cons_append, strays]
    · exact ih
    · -- a number sign at the end of the tokens starts a marker only before brackets
      intro joint place content place' after htoken hmore
      cases more with
      | nil =>
        rw [List.nil_append] at hmore
        rw [hmore] at hrest
        cases hrest
      | cons first more =>
        exact hmarker joint place content place' more htoken (by rw [(List.cons.inj hmore).1])
    · exact hgroup
  | case5 => rfl

/-- No comment stands before tokens that start with no mark. -/
theorem Unmarked.comments {tokens : List Token} (h : Unmarked tokens) (after : List Token) :
    comments (tokens ++ after) = .ok 0 := by
  obtain ⟨token, rest, rfl, htoken⟩ := h.first
  cases token with
  | punct c joint span => exact absurd rfl (htoken c joint span)
  | ident text span => rfl
  | literal value span => rfl
  | group delim content span => rfl

/-- No comment marker in tokens of an expression holds more than its text. -/
theorem Unmarked.strays_eq_none {tokens : List Token} (h : Unmarked tokens) :
    Grammar.strays tokens = none := by
  simpa [Grammar.strays] using h.strays []

/-- Tokens that start with no mark start with no operator. -/
theorem Unmarked.operator? {tokens : List Token} (h : Unmarked tokens) :
    operator? tokens = none := by
  obtain ⟨token, rest, rfl, htoken⟩ := h.first
  cases token with
  | punct c joint span => exact absurd rfl (htoken c joint span)
  | ident text span => rfl
  | literal value span => rfl
  | group delim content span => rfl

/-! ## Where an expression is over -/

variable {strength : Operator → Nat}

/-- Only a point continues an operand with a mark. -/
theorem accesses_punct {c : Char} (hc : c ≠ '.') (e : Expr) (joint : Bool) (span : Span)
    (rest : List Token) : accesses strength e (.punct c joint span :: rest) = .ok ⟨e, 0⟩ := by
  rw [accesses]
  · simp
  · rintro _ _ _ _ _ ⟨⟩
    exact hc rfl

/-- An operand is over where an expression is. -/
theorem Halts.accesses {after : List Token} (h : Halts after) (e : Expr) :
    accesses strength e after = .ok ⟨e, 0⟩ := by
  cases h with
  | nil => exact accesses_nil e
  | comma joint span rest => exact accesses_punct (by decide) e joint span rest

/-- A chain of operators is over where an expression is. -/
theorem Halts.chain {after : List Token} (h : Halts after) (least : Nat) (stop : Span) (e : Expr) :
    chain strength least stop e after = .ok ⟨e, 0⟩ := by
  cases h with
  | nil => exact chain_nil least stop e
  | comma joint span rest =>
    rw [chain_eq, comments_punct (by decide)]
    rfl

/-- No parentheses stand where an expression is over. -/
theorem Halts.startsGroup {after : List Token} (h : Halts after) :
    startsGroup .paren after = false := by
  cases h with
  | nil => rfl
  | comma joint span rest => rfl

/-- An operand is read before operators that bind at least as tight as any bound. -/
theorem SpellsOperand.binary {e : Expr} {tokens after : List Token} (h : SpellsOperand e tokens)
    (hafter : Halts after) (least : Nat) (stop : Span) :
    binary strength least stop (tokens ++ after) = .ok ⟨e, tokens.length⟩ := by
  rw [Grammar.binary, h.reads strength stop after hafter.startsGroup, hafter.accesses]
  simp only [bind, Except.bind, pure, Except.pure, Nat.add_zero, List.drop_left, hafter.chain]

/-- An operand is an expression. -/
theorem SpellsOperand.spells {e : Expr} {tokens : List Token} (h : SpellsOperand e tokens) :
    Spells e tokens :=
  { h.toUnmarked with reads := fun _ stop _ hafter => h.binary hafter 0 stop }

/-- The tokens of an expression are a whole expression. -/
theorem Spells.whole {e : Expr} {tokens : List Token} (h : Spells e tokens) (stop : Span) :
    whole strength stop tokens = .ok e := by
  refine whole_eq_ok_iff.mpr ⟨tokens.length, ?_, List.drop_length⟩
  simpa using h.reads strength stop [] .nil

/-- Two operands with an operator between them are read as an operation, whatever the operators
bind like. -/
theorem Spells.binary {op : Operator} {lhs rhs : Expr} {left middle right : List Token}
    (hleft : SpellsOperand lhs left) (hmiddle : SpellsOperator op middle)
    (hright : SpellsOperand rhs right) :
    Spells (.binary op lhs rhs) (left ++ (middle ++ right)) := by
  refine ⟨⟨?_, ?_⟩, ?_⟩
  · obtain ⟨token, rest, rfl, htoken⟩ := hleft.first
    exact ⟨token, _, rfl, htoken⟩
  · intro after
    rw [List.append_assoc, List.append_assoc, hleft.strays, hmiddle.strays, hright.strays]
  · intro strength stop after hafter
    obtain ⟨c, joint, span, more, hmore, hsign, hpoint⟩ := hmiddle.first
    have haccesses : accesses strength lhs (middle ++ (right ++ after)) = .ok ⟨lhs, 0⟩ := by
      rw [hmore]
      exact accesses_punct hpoint lhs joint span _
    have hchain : chain strength 0 stop lhs (middle ++ (right ++ after)) =
        .ok ⟨.binary op lhs rhs, middle.length + right.length⟩ := by
      have hcomments : comments (middle ++ (right ++ after)) = .ok 0 := by
        rw [hmore]
        exact comments_punct hsign joint span _
      rw [chain_eq, hcomments]
      simp only [bind, Except.bind, List.drop_zero, hmiddle.reads, Nat.not_lt_zero, if_false,
        Nat.zero_add, List.drop_left, hright.binary hafter]
      rw [← List.drop_drop, List.drop_left, List.drop_left, hafter.chain]
      rfl
    rw [List.append_assoc, List.append_assoc, Grammar.binary, hleft.reads strength stop _ ?_,
      haccesses]
    · simp only [bind, Except.bind, pure, Except.pure, Nat.add_zero, List.drop_left, hchain,
        List.length_append]
    · rw [hmore]
      rfl

/-! ## Operands -/

/-- A primary expression is an operand. -/
theorem SpellsOperand.of_primary {e : Expr} {tokens : List Token} (h : Unmarked tokens)
    (hreads : ∀ strength stop after, startsGroup .paren after = false →
      primary strength stop (tokens ++ after) = .ok ⟨e, tokens.length⟩) :
    SpellsOperand e tokens := by
  refine { h with reads := fun strength stop after hafter => ?_ }
  rw [operand, hreads strength stop after hafter]
  simp only [bind, Except.bind, List.drop_left]

/-- A single token that is no mark and no group holds no comment marker. -/
theorem unmarked_singleton {token : Token} (hmark : ∀ c joint span, token ≠ .punct c joint span)
    (hgroup : ∀ delim content span, token ≠ .group delim content span) : Unmarked [token] := by
  refine ⟨⟨token, [], rfl, hmark⟩, fun after => ?_⟩
  rw [List.singleton_append, strays]
  · exact fun joint span _ _ _ heq => absurd heq (hmark '#' joint span)
  · exact hgroup

/-- An atom of one token is an operand. -/
theorem SpellsOperand.of_atom {e : Expr} {token : Token}
    (hmark : ∀ c joint span, token ≠ .punct c joint span)
    (hgroup : ∀ delim content span, token ≠ .group delim content span)
    (hatom : ∀ stop after, atom stop (token :: after) = .ok ⟨e, 1⟩) : SpellsOperand e [token] := by
  have hunmarked := unmarked_singleton hmark hgroup
  refine SpellsOperand.of_primary hunmarked fun strength stop after hafter => ?_
  rw [primary_atom (hunmarked.comments after), List.drop_zero, List.singleton_append, hatom]
  · rfl
  · intro delim content span rest heq
    exact hgroup delim content span (List.cons.inj heq).1
  · intro text place content span rest heq
    obtain ⟨-, rfl⟩ : token = .ident text place ∧ after = .group .paren content span :: rest := by
      simpa using heq
    cases hafter

/-- A whole number of 64 bits without a sign. -/
theorem SpellsOperand.int {n : Nat} (hn : n < 2 ^ 63) (span : Span) :
    SpellsOperand (.int n) [.literal (.number (Nat.toDigits 10 n)) span] := by
  have hint : int64 false n = .ok n := if_pos hn
  have hnumber : number false (.number false (.integer n "")) = .ok (.int n) := by
    change (int64 false n >>= fun m => pure (Expr.int m)) = _
    rw [hint]
    rfl
  refine SpellsOperand.of_atom (by simp) (by simp) fun stop after => ?_
  unfold atom
  simp only [literal?, Numeral.ofText_toDigits, hnumber, atom.blame]

/-- A truth value. -/
theorem SpellsOperand.bool (b : Bool) (span : Span) :
    SpellsOperand (.bool b) [.ident (toString b) span] := by
  refine SpellsOperand.of_atom (by simp) (by simp) fun stop after => ?_
  cases b with
  | false => rfl
  | true => rfl

/-- A word that may be used as a name is no literal and names no constructor. -/
theorem name_of_isReserved {name : String} (h : Word.isReserved name = false) (span : Span)
    (after : List Token) :
    literal? (.ident name span :: after) = none ∧ constructor? name = none := by
  have hword : ∀ {word}, Word.isReserved word = true → name ≠ word := by
    rintro word hword rfl
    rw [h] at hword
    cases hword
  constructor
  · unfold literal?
    split
    case h_4 heq =>
      cases heq
      exact absurd rfl (hword (by decide))
    case h_5 heq =>
      cases heq
      exact absurd rfl (hword (by decide))
    case h_7 => rfl
    all_goals
      rename_i heq
      cases heq
  · unfold constructor?
    split
    · exact absurd rfl (hword (by decide))
    · exact absurd rfl (hword (by decide))
    · exact absurd rfl (hword (by decide))
    · exact absurd rfl (hword (by decide))
    · rfl

/-- A variable. -/
theorem SpellsOperand.ref {name : String} (h : Word.isReserved name = false) (span : Span) :
    SpellsOperand (.ref name) [.ident name span] := by
  refine SpellsOperand.of_atom (by simp) (by simp) fun stop after => ?_
  obtain ⟨hliteral, hconstructor⟩ := name_of_isReserved h span after
  unfold atom
  simp [hliteral, negated?, hconstructor, h]

/-- A call. -/
theorem SpellsOperand.call {name : String} {args : List Expr} {content : List Token}
    (h : Word.isReserved name = false) (hargs : SpellsAll args content) (place span : Span) :
    SpellsOperand (.call name args) [.ident name place, .group .paren content span] := by
  have hunmarked : Unmarked [.ident name place, .group .paren content span] := by
    refine ⟨⟨_, _, rfl, by simp⟩, fun after => ?_⟩
    simp [strays, hargs.strays]
  refine SpellsOperand.of_primary hunmarked fun strength stop after hafter => ?_
  rw [List.cons_append, List.singleton_append,
    primary_call (name_of_isReserved h place []).2 h, hargs.reads]
  rfl

/-- An expression in parentheses. -/
theorem SpellsOperand.paren {e : Expr} {content : List Token} (h : Spells e content)
    (span : Span) : SpellsOperand e [.group .paren content span] := by
  have hunmarked : Unmarked [.group .paren content span] := by
    refine ⟨⟨_, _, rfl, by simp⟩, fun after => ?_⟩
    simp [Grammar.strays, h.strays_eq_none]
  have hparen : ∀ strength, parenthesized strength span.last content = .ok e := by
    intro strength
    rw [parenthesized, h.operator?]
    exact h.whole span.last
  refine SpellsOperand.of_primary hunmarked fun strength stop after hafter => ?_
  rw [List.singleton_append, primary_paren, hparen]
  rfl

/-- A field or an index of an operand. -/
theorem SpellsOperand.access {base e : Expr} {tokens more : List Token}
    (h : SpellsOperand base tokens) (hparen : ∀ after, startsGroup .paren (more ++ after) = false)
    (hstrays : ∀ after, Grammar.strays (more ++ after) = Grammar.strays after)
    (haccess : ∀ strength after, accesses strength base (more ++ after) = do
      let found ← accesses strength e after
      return ⟨found.value, found.width + more.length⟩) :
    SpellsOperand e (tokens ++ more) := by
  refine ⟨⟨?_, ?_⟩, ?_⟩
  · obtain ⟨token, rest, rfl, htoken⟩ := h.first
    exact ⟨token, _, rfl, htoken⟩
  · intro after
    rw [List.append_assoc, h.strays, hstrays]
  · intro strength stop after hafter
    rw [List.append_assoc, h.reads strength stop _ (hparen after), haccess]
    cases accesses strength e after with
    | error fault => rfl
    | ok found =>
      simp only [bind, Except.bind, pure, Except.pure, List.length_append, Nat.add_assoc,
        Nat.add_comm found.width]

/-- A field of an operand. -/
theorem SpellsOperand.field {base : Expr} {tokens : List Token} (h : SpellsOperand base tokens)
    (name : String) (joint : Bool) (point place : Span) :
    SpellsOperand (.field base name) (tokens ++ [.punct '.' joint point, .ident name place]) := by
  refine h.access (fun _ => rfl) (fun after => ?_) fun strength after => ?_
  · simp [Grammar.strays]
  · rw [List.cons_append, List.singleton_append, accesses]
    rfl

/-- An index of an operand. -/
theorem SpellsOperand.index {base position : Expr} {tokens content : List Token}
    (h : SpellsOperand base tokens) (hposition : Spells position content) (span : Span) :
    SpellsOperand (.index base position) (tokens ++ [.group .bracket content span]) := by
  refine h.access (fun _ => rfl) (fun after => ?_) fun strength after => ?_
  · simp [Grammar.strays, hposition.strays_eq_none]
  · rw [List.singleton_append, accesses, hposition.whole]
    rfl

/-! ## Lists of expressions -/

/-- No tokens spell no expressions. -/
theorem SpellsAll.nil : SpellsAll [] [] := by
  refine ⟨?_, fun strength stop => ?_⟩
  · simp [Grammar.strays]
  · rw [items]

/-- The tokens of one expression. -/
theorem SpellsAll.singleton {e : Expr} {tokens : List Token} (h : Spells e tokens) :
    SpellsAll [e] tokens := by
  refine ⟨h.strays_eq_none, fun strength stop => ?_⟩
  obtain ⟨token, rest, rfl, -⟩ := h.first
  have hread := h.reads strength stop [] .nil
  rw [List.append_nil] at hread
  rw [items, hread]
  simp [bind, Except.bind, pure, Except.pure]

/-- The tokens of an expression, a comma and the tokens of further ones. -/
theorem SpellsAll.cons {e : Expr} {es : List Expr} {tokens more : List Token}
    (h : Spells e tokens) (hmore : SpellsAll es more) (joint : Bool) (span : Span) :
    SpellsAll (e :: es) (tokens ++ .punct ',' joint span :: more) := by
  refine ⟨?_, fun strength stop => ?_⟩
  · rw [h.strays, strays_punct (by decide), hmore.strays]
  · obtain ⟨token, rest, rfl, -⟩ := h.first
    have hread := h.reads strength stop _ (.comma joint span more)
    rw [List.cons_append] at hread ⊢
    rw [items, hread]
    simp [bind, Except.bind, pure, Except.pure, mark, startsMark, hmore.reads]

end Grammar

end ShaderLang
