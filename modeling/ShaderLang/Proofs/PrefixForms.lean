import ShaderLang.Proofs.Separation

/-!
# The prefix form of an operation

In parentheses an operator may stand before its two operands: `( op a b )` means `a op b`.  The
first operand has to end by itself where the second one starts.  Whether it does depends on the
second one, which is no index of the first, no field of it, and no arguments for it; then both are
read as they are alone.

Main results:

- Theorem `operand_eq_of_append`: an operand that ends before other tokens is read as it is alone.
- Theorem `prefixed_of_operands`: an operator before two operands.
- Theorem `whole_of_operands`: an operator between two operands.
- Theorem `prefix_infix_agree`: the prefix form is read as the operation, as the infix form is.
-/

namespace ShaderLang

namespace Grammar

variable {strength : Operator → Nat}

/-! ## Operands before other tokens -/

/-- After indices and fields no brackets stand. -/
theorem startsGroup_of_accesses {base : Expr} {tokens : List Token} {found : Taken Expr}
    (h : accesses strength base tokens = .ok found) :
    startsGroup .bracket (tokens.drop found.width) = false := by
  unfold accesses at h
  split at h
  · rcases bind_eq_ok.mp h with ⟨position, -, h⟩
    rcases bind_eq_ok.mp h with ⟨e, he, h⟩
    cases h
    have hmore := startsGroup_of_accesses he
    exact hmore
  · rcases bind_eq_ok.mp h with ⟨e, he, h⟩
    cases h
    have hmore := startsGroup_of_accesses he
    exact hmore
  · rename_i hbracket _
    cases h
    rw [List.drop_zero]
    cases tokens with
    | nil => rfl
    | cons token rest =>
      cases token with
      | group delim content span =>
        cases delim with
        | bracket => exact absurd rfl (hbracket content span rest)
        | paren => rfl
        | brace => rfl
      | _ => rfl
termination_by tokens.length

/-- Indices and fields that end before other tokens are the same as alone. -/
theorem accesses_eq_of_append {base : Expr} {tokens rest : List Token} {found found' : Taken Expr}
    (h : accesses strength base tokens = .ok found) (hwidth : found.width = tokens.length)
    (h' : accesses strength base (tokens ++ rest) = .ok found')
    (hwidth' : found'.width = tokens.length) : found' = found := by
  unfold accesses at h
  split at h
  · rename_i content span more
    rcases bind_eq_ok.mp h with ⟨position, hposition, h⟩
    rcases bind_eq_ok.mp h with ⟨e, he, h⟩
    cases h
    rw [List.cons_append, accesses, hposition] at h'
    rcases bind_eq_ok.mp h' with ⟨_, ⟨⟩, h'⟩
    rcases bind_eq_ok.mp h' with ⟨e', he', h'⟩
    cases h'
    rw [accesses_eq_of_append he (Nat.succ.inj hwidth) he' (Nat.succ.inj hwidth')]
  · rename_i joint span name place more
    rcases bind_eq_ok.mp h with ⟨e, he, h⟩
    cases h
    rw [List.cons_append, List.cons_append, accesses] at h'
    rcases bind_eq_ok.mp h' with ⟨e', he', h'⟩
    cases h'
    rw [accesses_eq_of_append he (Nat.add_right_cancel hwidth) he' (Nat.add_right_cancel hwidth')]
  · cases h
    -- nothing is taken here, so there is nothing to take
    cases tokens with
    | cons token more => cases hwidth
    | nil =>
      unfold accesses at h'
      split at h'
      · rcases bind_eq_ok.mp h' with ⟨position, -, h'⟩
        rcases bind_eq_ok.mp h' with ⟨e', -, h'⟩
        cases h'
        cases hwidth'
      · rcases bind_eq_ok.mp h' with ⟨e', -, h'⟩
        cases h'
        cases hwidth'
      · cases h'
        rfl
termination_by tokens.length

/-- Parentheses after a name are taken with it, or else the name is an atom. -/
theorem lead_name {stop : Span} {text : String} {place : Span} {content : List Token} {span : Span}
    {rest : List Token} {found : Taken Expr}
    (h : lead strength stop (.ident text place :: .group .paren content span :: rest) = .ok found) :
    found.width = 2 ∨
      atom stop (.ident text place :: .group .paren content span :: rest) = .ok found := by
  rw [lead] at h
  split at h
  · rcases map_eq_ok.mp h with ⟨e, -, rfl⟩
    exact Or.inl rfl
  · split at h
    · exact Or.inr h
    · rcases map_eq_ok.mp h with ⟨args, -, rfl⟩
      exact Or.inl rfl

/-- A primary expression without comments that ends before other tokens is the same as alone. -/
theorem lead_eq_of_append {stop : Span} {tokens rest : List Token} {found found' : Taken Expr}
    (h : lead strength stop tokens = .ok found)
    (h' : lead strength stop (tokens ++ rest) = .ok found')
    (hwidth : found'.width ≤ tokens.length) : found' = found := by
  unfold lead at h
  split at h
  · exact Except.ok.inj (h'.symm.trans h)
  · exact Except.ok.inj (h'.symm.trans h)
  · rename_i text place content span more
    rw [List.cons_append, List.cons_append, lead] at h'
    cases hty : constructor? text with
    | some ty =>
      rw [hty] at h h'
      exact Except.ok.inj (h'.symm.trans h)
    | none =>
      simp only [hty] at h h'
      split at h
      · rename_i hreserved
        rw [if_pos hreserved] at h'
        exact Except.ok.inj (h'.symm.trans (atom_append h rest))
      · rename_i hfree
        rw [if_neg hfree] at h'
        exact Except.ok.inj (h'.symm.trans h)
  · rename_i hparen hbracket hargs
    have hatom := atom_append h rest
    suffices hatom' : atom stop (tokens ++ rest) = .ok found' from
      Except.ok.inj (hatom'.symm.trans hatom)
    rcases tokens with _ | ⟨first, _ | ⟨second, more⟩⟩
    · cases h
    · by_cases hname : ∃ text place content span after,
          [first] ++ rest = .ident text place :: .group .paren content span :: after
      · rcases hname with ⟨text, place, content, span, after, hname⟩
        rw [hname] at h' ⊢
        rcases lead_name h' with hcall | hatom'
        · rw [hcall] at hwidth
          cases hwidth with
          | step hwidth => cases hwidth
        · exact hatom'
      · rw [lead] at h'
        · exact h'
        · simpa using hparen
        · simpa using hbracket
        · intro text place content span after htokens
          exact hname ⟨text, place, content, span, after, htokens⟩
    · rw [List.cons_append, List.cons_append, lead] at h'
      · exact h'
      · simpa using hparen
      · simpa using hbracket
      · simpa using hargs

/-- An operand that ends before other tokens is the same as alone, and these start with no
brackets. -/
theorem operand_eq_of_append {stop : Span} {tokens rest : List Token} {e : Expr}
    {found : Taken Expr} (h : operand strength stop tokens = .ok ⟨e, tokens.length⟩)
    (h' : operand strength stop (tokens ++ rest) = .ok found)
    (hwidth : found.width = tokens.length) :
    found.value = e ∧ startsGroup .bracket rest = false := by
  rw [operand] at h h'
  rcases bind_eq_ok.mp h with ⟨base, hbase, h⟩
  rcases bind_eq_ok.mp h with ⟨access, haccess, hwhole⟩
  rcases bind_eq_ok.mp h' with ⟨base', hbase', h'⟩
  rcases bind_eq_ok.mp h' with ⟨access', haccess', h'⟩
  cases h'
  simp only [pure, Except.pure, Except.ok.injEq, Taken.mk.injEq] at hwhole hwidth
  have hbracket : startsGroup .bracket rest = false := by
    have hafter := startsGroup_of_accesses haccess'
    rwa [List.drop_drop, hwidth, List.drop_left] at hafter
  refine ⟨?_, hbracket⟩
  cases hskipped : comments tokens with
  | error fault =>
    rw [primary, hskipped] at hbase
    cases hbase
  | ok skipped =>
    rw [primary_eq hskipped, map_eq_ok] at hbase
    rcases hbase with ⟨first, hlead, rfl⟩
    have hlength := lt_length_of_lead hlead
    rw [primary_eq (comments_stop hskipped hlength hbracket), map_eq_ok,
      List.drop_append_of_le_length hlength.le] at hbase'
    rcases hbase' with ⟨first', hlead', rfl⟩
    dsimp only at hwhole hwidth haccess haccess'
    obtain rfl : first' = first := by
      apply lead_eq_of_append hlead hlead'
      rw [List.length_drop]
      omega
    rw [List.drop_append_of_le_length (by omega)] at haccess'
    have haccesses : access' = access := by
      apply accesses_eq_of_append haccess _ haccess'
      · rw [List.length_drop]
        omega
      · rw [List.length_drop]
        omega
    rw [haccesses]
    exact hwhole.1

/-! ## Operators with their operands -/

/-- An operator is spelled by tokens that are there. -/
theorem width_le_of_operator {stop : Span} {tokens : List Token} {found : Taken Operator}
    (h : operator stop tokens = .ok found) : found.width ≤ tokens.length :=
  width_le_of_operator? (operator?_of_operator h)

/-- An operand stands in tokens that are there. -/
theorem width_le_of_operand {stop : Span} {tokens : List Token} {found : Taken Expr}
    (h : operand strength stop tokens = .ok found) : found.width ≤ tokens.length :=
  ((operand_separable stop).separates h).le_length

section Forms

variable {stop : Span} {mark left right : List Token} {op : Operator} {lhs rhs : Expr}

/-- The second mark of an operator is no number sign. -/
theorem exists_of_spelled? {c : Char} {next : Option Char}
    (h : spelled? c next = some (op, true)) : ∃ d, d ≠ '#' ∧ next = some d := by
  have hnone : spelled? c none ≠ some (op, true) := by
    unfold spelled?
    grind
  cases next with
  | none => exact absurd h hnone
  | some d =>
    refine ⟨d, ?_, rfl⟩
    rintro rfl
    rw [spelled?_stop (by decide)] at h
    exact hnone h

/-- Marks of an operator start no comment marker, whatever follows. -/
theorem strays_operator (h : operator? mark = some ⟨op, mark.length⟩) (rest : List Token) :
    strays (mark ++ rest) = strays rest := by
  rcases exists_of_operator? h with ⟨c, joint, span, more, rfl, -⟩
  have hc : c ≠ '#' := by
    rintro rfl
    cases h
  cases more with
  | nil => exact strays_punct hc joint span rest
  | cons second more =>
    rw [operator?] at h
    rcases Option.map_eq_some_iff.mp h with ⟨⟨_, double⟩, hspelled, h⟩
    cases double with
    | false => cases h
    | true =>
      obtain rfl : more = [] := by
        cases more with
        | nil => rfl
        | cons third more => cases h
      rcases exists_of_spelled? hspelled with ⟨d, hd, hjoined⟩
      cases second with
      | punct d' joint' span' =>
        cases joint with
        | true =>
          cases hjoined
          exact (strays_punct hc _ _ _).trans (strays_punct hd _ _ _)
        | false => cases hjoined
      | _ => cases hjoined

/-- An operator before two operands, of which the first ends where the second starts. -/
theorem prefixed_of_operands
    (hop : operator? (mark ++ (left ++ right)) = some ⟨op, mark.length⟩)
    (hleft : operand strength stop (left ++ right) = .ok ⟨lhs, left.length⟩)
    (hright : operand strength stop right = .ok ⟨rhs, right.length⟩) :
    prefixed strength stop (mark ++ (left ++ right)) = .ok (.binary op lhs rhs) := by
  rw [prefixed, operator, hop]
  simp only [bind, Except.bind, List.drop_left, List.drop_length_add_append, hleft, hright,
    Nat.add_assoc, List.drop_length]
  rfl

/-- A prefix form in parentheses is read as such. -/
theorem parenthesized_of_prefixed {tokens : List Token} {found : Taken Operator} {e : Expr}
    (hop : operator? tokens = some found) (h : prefixed strength stop tokens = .ok e) :
    parenthesized strength stop tokens = .ok e := by
  rw [parenthesized, hop, h]
  rfl

/-- An operator between two operands. -/
theorem whole_of_operands (hop : operator? mark = some ⟨op, mark.length⟩)
    (hleft : operand strength stop left = .ok ⟨lhs, left.length⟩)
    (hright : operand strength stop right = .ok ⟨rhs, right.length⟩) :
    whole strength stop (left ++ (mark ++ right)) = .ok (.binary op lhs rhs) := by
  let first : Operand := ⟨[], left, lhs⟩
  let link : Link := ⟨[], mark, op, ⟨[], right, rhs⟩⟩
  have hlink : link.Stands strength stop := ⟨rfl, hop, rfl, by rwa [List.append_nil]⟩
  have hfirst : first.Stands strength stop [] := ⟨rfl, by rwa [List.append_nil]⟩
  have hstops : Stops strength 0 [] := ⟨0, rfl, by simp [operator?]⟩
  rcases inPlace_of_stands (List.forall_mem_singleton.mpr hlink) first hfirst hlink.operand with
    ⟨hplace, hlinks⟩
  have hchain := chain_reads hstops lhs [link] hlinks fun _ _ => Nat.zero_le _
  have hread := hplace.binary hchain
  have htokens : first.spelling ++ tokensFrom [link] [] = left ++ (mark ++ right) := by
    simp [first, link, tokensFrom, Link.spelling, Operand.spelling]
  have hclimb : climb strength lhs ([link].map Link.arm) = .binary op lhs rhs := by
    simp [link, Link.arm, climb]
  rw [htokens, hclimb] at hread
  refine whole_eq_ok_iff.mpr ⟨_, hread, List.drop_eq_nil_of_le ?_⟩
  simp [first, link, Link.spelling, Operand.spelling]

end Forms

/-! ## Both forms -/

/-- The prefix form is read as the operation, as the infix form is.  Let there be marks of an
operator and two operands, each of them taken in full, such that the first operand is over where the
second one stands after it.  Then the operator before both of them in parentheses is read as the
operation, also as an operand, and so is the operator between them. -/
theorem prefix_infix_agree {mark left right : List Token} {op : Operator} {lhs rhs : Expr}
    {found : Taken Expr} (hmark : readAll operator mark = .ok op)
    (hleft : readAll (operand Operator.prec) left = .ok lhs)
    (hright : readAll (operand Operator.prec) right = .ok rhs)
    (hboth : operand Operator.prec .origin (left ++ right) = .ok found)
    (hover : found.width = left.length) (span : Span) :
    readAll expr [.group .paren (mark ++ (left ++ right)) span] = .ok (.binary op lhs rhs) ∧
      readAll (operand Operator.prec) [.group .paren (mark ++ (left ++ right)) span] =
        .ok (.binary op lhs rhs) ∧
      readAll expr (left ++ (mark ++ right)) = .ok (.binary op lhs rhs) := by
  rcases (readAll_eq_ok_iff fun _ => width_le_of_operator).mp hmark with ⟨hoperator, -⟩
  rcases (readAll_eq_ok_iff fun _ => width_le_of_operand).mp hleft with ⟨hlhs, hstrays⟩
  rcases (readAll_eq_ok_iff fun _ => width_le_of_operand).mp hright with ⟨hrhs, hstrays'⟩
  rcases operand_eq_of_append hlhs hboth hover with ⟨hvalue, hbracket⟩
  have hop := operator?_of_operator hoperator
  have hfirst : operand Operator.prec .origin (left ++ right) = .ok ⟨lhs, left.length⟩ := by
    rw [hboth, ← hvalue, ← hover]
  have hop' : operator? (mark ++ (left ++ right)) = some ⟨op, mark.length⟩ := by
    apply operator?_append hop
    intro c joint place rest hrest
    rw [hrest] at hfirst
    exact mark_of_operand hfirst
  have hparen : parenthesized Operator.prec span.last (mark ++ (left ++ right)) =
      .ok (.binary op lhs rhs) := by
    apply parenthesized_of_prefixed hop'
    exact prefixed_of_operands hop' (operand_stop span.last hfirst) (operand_stop span.last hrhs)
  have hgroup : strays [.group .paren (mark ++ (left ++ right)) span] = none := by
    rw [strays_group, strays_operator hop, strays_append_of_startsGroup left hbracket, hstrays,
      hstrays', strays]
    rfl
  refine ⟨?_, ?_, ?_⟩
  · apply readAll_binary_eq_ok_iff.mpr
    exact ⟨by rw [whole_paren, hparen], hgroup⟩
  · apply (readAll_eq_ok_iff fun _ => width_le_of_operand).mpr
    refine ⟨?_, hgroup⟩
    rw [operand, primary_paren, hparen]
    simp only [Except.map, bind, Except.bind, List.drop_succ_cons, List.drop_zero, accesses_nil]
    rfl
  · apply readAll_binary_eq_ok_iff.mpr
    refine ⟨whole_of_operands hop hlhs hrhs, ?_⟩
    have hafter : startsGroup .bracket (mark ++ right) = false := by
      rcases exists_of_operator? hop with ⟨c, joint, place, rest, rfl, -⟩
      rfl
    rw [strays_append_of_startsGroup left hafter, strays_operator hop, hstrays, hstrays']
    rfl

/-- The tokens of `* -1 x`. -/
def product : List Token :=
  [.punct '*' false .origin, .punct '-' false .origin, .literal (.number ['1']) .origin,
    .ident "x" .origin]

/-- The tokens of `-2`. -/
def negativeTwo : List Token :=
  [.punct '-' false .origin, .literal (.number ['2']) .origin]

/-- A prefix form of a prefix form and a negative number, and the difference of the same: the sign
before the number belongs to it after an operand, too. -/
theorem prefix_infix_agree_nested :
    readAll operator [.punct '-' false .origin] = .ok .sub ∧
      readAll (operand Operator.prec) [.group .paren product .origin] =
        .ok (.binary .mul (.int (-1)) (.ref "x")) ∧
      readAll (operand Operator.prec) negativeTwo = .ok (.int (-2)) ∧
      operand Operator.prec .origin (.group .paren product .origin :: negativeTwo) =
        .ok ⟨.binary .mul (.int (-1)) (.ref "x"), 1⟩ ∧
      readAll expr [.group .paren
          (.punct '-' false .origin :: .group .paren product .origin :: negativeTwo) .origin] =
        .ok (.binary .sub (.binary .mul (.int (-1)) (.ref "x")) (.int (-2))) ∧
      readAll expr (.group .paren product .origin :: .punct '-' false .origin :: negativeTwo) =
        .ok (.binary .sub (.binary .mul (.int (-1)) (.ref "x")) (.int (-2))) := by
  have hmark : readAll operator [.punct '-' false .origin] = .ok .sub := by
    with_unfolding_all rfl
  have hleft : readAll (operand Operator.prec) [.group .paren product .origin] =
      .ok (.binary .mul (.int (-1)) (.ref "x")) := by
    with_unfolding_all rfl
  have hright : readAll (operand Operator.prec) negativeTwo = .ok (.int (-2)) := by
    with_unfolding_all rfl
  have hboth : operand Operator.prec .origin (.group .paren product .origin :: negativeTwo) =
      .ok ⟨.binary .mul (.int (-1)) (.ref "x"), 1⟩ := by
    set_option maxRecDepth 2000 in
    with_unfolding_all rfl
  have hforms := prefix_infix_agree hmark hleft hright hboth rfl .origin
  exact ⟨hmark, hleft, hright, hboth, hforms.1, hforms.2.2⟩

end Grammar

end ShaderLang
