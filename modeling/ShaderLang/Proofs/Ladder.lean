import ShaderLang.Proofs.Parentheses
import ShaderLang.Proofs.Spelling

/-!
# The ladder of binding strengths

A chain of operands with operators between them has one tree: it is divided at the last of the
operators that bind least, and so are the chains to the left and to the right of it.  Climbing, with
a loop for the operators of one level and a recursion for those that bind tighter, builds this tree.

Main results:

- Theorem `divide?_eq_some`: where a chain is divided.
- Theorem `climb_eq_ladder`: climbing and dividing give the same tree.
- Theorem `chain_reads`: the reader of chains climbs, and takes all tokens of a chain.
- Theorem `binary_eq_ladder`: the reader of expressions gives a chain its tree.
-/

namespace ShaderLang

namespace Grammar

/-! ## Trees of chains -/

/-- An operator with the operand to its right. -/
abbrev Arm := Operator × Expr

/-- A chain of arms, divided at one of them. -/
structure Division where
  before : List Arm
  arm : Arm
  after : List Arm

section Trees

variable (strength : Operator → Nat)

/-- Divide a chain at the last of the operators that bind least. -/
def divide? : List Arm → Option Division
  | [] => none
  | arm :: arms =>
    match divide? arms with
    | none => some ⟨[], arm, arms⟩
    | some d =>
      if strength arm.1 < strength d.arm.1 then some ⟨[], arm, arms⟩
      else some ⟨arm :: d.before, d.arm, d.after⟩

/-- Only an empty chain is not divided. -/
theorem divide?_eq_none_iff {arms : List Arm} : divide? strength arms = none ↔ arms = [] := by
  cases arms with
  | nil => simp [divide?]
  | cons arm arms =>
    simp only [divide?, reduceCtorEq, iff_false]
    split
    · simp
    · split <;> simp

/-- A chain is divided at an operator that binds at most as tight as those before it and less than
those after it. -/
theorem divide?_eq_some {arms : List Arm} {d : Division} (h : divide? strength arms = some d) :
    arms = d.before ++ d.arm :: d.after ∧ (∀ a ∈ d.before, strength d.arm.1 ≤ strength a.1) ∧
      ∀ a ∈ d.after, strength d.arm.1 < strength a.1 := by
  induction arms generalizing d with
  | nil => cases h
  | cons arm arms ih =>
    rw [divide?] at h
    cases hrest : divide? strength arms with
    | none =>
      rw [hrest] at h
      cases h
      simp [(divide?_eq_none_iff strength).mp hrest]
    | some rest =>
      rcases ih hrest with ⟨harms, hbefore, hafter⟩
      simp only [hrest] at h
      by_cases hlow : strength arm.1 < strength rest.arm.1
      · rw [if_pos hlow] at h
        cases h
        refine ⟨rfl, by simp, fun a ha => ?_⟩
        rw [harms, List.mem_append, List.mem_cons] at ha
        rcases ha with ha | rfl | ha
        · exact Nat.lt_of_lt_of_le hlow (hbefore a ha)
        · exact hlow
        · exact Nat.lt_trans hlow (hafter a ha)
      · rw [if_neg hlow] at h
        cases h
        refine ⟨by rw [harms]; rfl, ?_, hafter⟩
        rw [List.forall_mem_cons]
        exact ⟨Nat.le_of_not_lt hlow, hbefore⟩

/-- The tree of a chain: it is divided at the last of the operators that bind least, and so are the
chains to the left and to the right of it. -/
def ladder (first : Expr) (arms : List Arm) : Expr :=
  match _h : divide? strength arms with
  | none => first
  | some d => .binary d.arm.1 (ladder first d.before) (ladder d.arm.2 d.after)
termination_by arms.length
decreasing_by
  all_goals
    have hlength := congrArg List.length (divide?_eq_some strength _h).1
    simp only [List.length_append, List.length_cons] at hlength
    omega

/-- An arm binds tighter than an operator. -/
def bindsTighter (op : Operator) (arm : Arm) : Bool :=
  strength op < strength arm.1

/-- The tree that climbing builds: every operator takes those after it that bind tighter. -/
def climb (lhs : Expr) : List Arm → Expr
  | [] => lhs
  | (op, e) :: arms =>
    climb (.binary op lhs (climb e (arms.takeWhile (bindsTighter strength op))))
      (arms.dropWhile (bindsTighter strength op))
termination_by arms => arms.length
decreasing_by
  · exact Nat.lt_succ_of_le (List.takeWhile_prefix _).length_le
  · exact Nat.lt_succ_of_le (List.dropWhile_suffix _).length_le

end Trees

variable {strength : Operator → Nat}

/-- What binding tighter means. -/
theorem bindsTighter_iff {op : Operator} {arm : Arm} :
    bindsTighter strength op arm = true ↔ strength op < strength arm.1 :=
  decide_eq_true_iff

/-- Climbing divides a chain like the ladder. -/
theorem climb_divided {op : Operator} {e : Expr} {after : List Arm}
    (hafter : ∀ a ∈ after, strength op < strength a.1) (lhs : Expr) (before : List Arm)
    (hbefore : ∀ a ∈ before, strength op ≤ strength a.1) :
    climb strength lhs (before ++ (op, e) :: after) =
      .binary op (climb strength lhs before) (climb strength e after) := by
  match before with
  | [] =>
    have htighter : ∀ a ∈ after, bindsTighter strength op a = true :=
      fun a ha => bindsTighter_iff.mpr (hafter a ha)
    rw [List.nil_append, climb, climb, List.takeWhile_eq_self_iff.mpr htighter,
      List.dropWhile_eq_nil_iff.mpr htighter, climb]
  | (o, f) :: before =>
    rw [List.forall_mem_cons] at hbefore
    have hstop : ¬ bindsTighter strength o (op, e) := by
      rw [bindsTighter_iff]
      exact Nat.not_lt.mpr hbefore.1
    have htake : (before ++ (op, e) :: after).takeWhile (bindsTighter strength o) =
        before.takeWhile (bindsTighter strength o) := by
      rw [List.takeWhile_append]
      split
      · rename_i hall
        rw [List.takeWhile_cons_of_neg hstop, List.append_nil,
          (List.takeWhile_prefix _).eq_of_length hall]
      · rfl
    have hdrop : (before ++ (op, e) :: after).dropWhile (bindsTighter strength o) =
        before.dropWhile (bindsTighter strength o) ++ (op, e) :: after := by
      rw [List.dropWhile_append]
      split
      · rename_i hall
        rw [List.dropWhile_cons_of_neg hstop, List.isEmpty_iff.mp hall, List.nil_append]
      · rfl
    have hleft : ∀ a ∈ before.dropWhile (bindsTighter strength o), strength op ≤ strength a.1 :=
      fun a ha => hbefore.2 a ((List.dropWhile_suffix _).mem ha)
    rw [List.cons_append, climb, htake, hdrop, climb_divided hafter _ _ hleft, climb]
termination_by before.length
decreasing_by
  exact Nat.lt_succ_of_le (List.dropWhile_suffix _).length_le

/-- Climbing and dividing give the same tree. -/
theorem climb_eq_ladder (first : Expr) (arms : List Arm) :
    climb strength first arms = ladder strength first arms := by
  fun_induction ladder strength first arms with
  | case1 first arms hnone =>
    rw [(divide?_eq_none_iff strength).mp hnone, climb]
  | case2 first arms d hsome ihbefore ihafter =>
    rcases divide?_eq_some strength hsome with ⟨harms, hbefore, hafter⟩
    rw [harms, ← ihbefore, ← ihafter]
    exact climb_divided hafter first d.before hbefore

/-! ## What may follow an operand -/

/-- Comment markers that stand alone are passed over before any tokens. -/
theorem comments_append {markers : List Token} (h : comments markers = .ok markers.length)
    (after : List Token) :
    comments (markers ++ after) = (comments after).map (markers.length + ·) := by
  fun_induction comments markers with
  | case1 joint place content span rest ih =>
    rcases bind_eq_ok.mp h with ⟨text, htext, h⟩
    rcases bind_eq_ok.mp h with ⟨skipped, hskipped, h⟩
    cases h
    rw [List.cons_append, List.cons_append, comments, htext, ih hskipped]
    cases comments after with
    | error fault => rfl
    | ok n =>
      simp only [bind, Except.bind, pure, Except.pure, Except.map, List.length_cons,
        Except.ok.injEq]
      omega
  | case2 tokens hnone =>
    cases tokens with
    | nil => cases hafter : comments after <;> simp [Except.map, hafter]
    | cons token rest => cases h

/-- Comments before tokens are the same before any more tokens that do not start with brackets. -/
theorem comments_stop {tokens : List Token} {skipped : Nat} (h : comments tokens = .ok skipped)
    (hlength : skipped < tokens.length) {rest : List Token}
    (hrest : startsGroup .bracket rest = false) : comments (tokens ++ rest) = .ok skipped := by
  fun_induction comments tokens generalizing skipped with
  | case1 joint place content span more ih =>
    rcases bind_eq_ok.mp h with ⟨text, htext, h⟩
    rcases bind_eq_ok.mp h with ⟨count, hcount, h⟩
    cases h
    rw [List.cons_append, List.cons_append, comments, htext,
      ih hcount (Nat.add_lt_add_iff_right.mp hlength)]
    rfl
  | case2 tokens hnone =>
    cases h
    rcases tokens with _ | ⟨first, _ | ⟨second, more⟩⟩
    · cases hlength
    · rw [comments]
      intro joint place content span after heq
      simp only [List.cons_append, List.nil_append, List.cons.injEq] at heq
      rw [heq.2] at hrest
      cases hrest
    · rw [comments]
      intro joint place content span after heq
      simp only [List.cons_append, List.cons.injEq] at heq
      exact hnone joint place content span more (by rw [heq.1, heq.2.1])

/-- More tokens after a literal do not change it, and only a mark alone may become one. -/
theorem literal?_append {tokens : List Token} (h : tokens ≠ [])
    (hmark : ∀ c joint span, tokens ≠ [.punct c joint span]) (rest : List Token) :
    literal? (tokens ++ rest) = literal? tokens := by
  rcases tokens with _ | ⟨first, _ | ⟨second, more⟩⟩
  · exact absurd rfl h
  · unfold literal?
    grind
  · unfold literal?
    grind

/-- An atom is read in the same way before any more tokens. -/
theorem atom_append {stop : Span} {tokens : List Token} {found : Taken Expr}
    (h : atom stop tokens = .ok found) (rest : List Token) :
    atom stop (tokens ++ rest) = .ok found := by
  have htokens : tokens ≠ [] := by
    rintro rfl
    cases h
  have hmark : ∀ c joint span, tokens ≠ [.punct c joint span] := by
    rintro c joint span rfl
    rcases atom_punct h with ⟨-, negative, numeral, place, width, hliteral, -⟩
    cases hliteral
  have hnegated : negated? (tokens ++ rest) = negated? tokens := by
    cases tokens with
    | nil => exact absurd rfl htokens
    | cons first more =>
      cases first with
      | punct c joint span =>
        rcases atom_punct h with ⟨rfl, negative, numeral, place, width, hliteral, -⟩
        have hmore : more ≠ [] := by
          rintro rfl
          cases hliteral
        have hmark' : ∀ c joint span, more ≠ [.punct c joint span] := by
          rintro c joint span rfl
          unfold literal? at hliteral
          grind
        rw [List.cons_append, negated?, negated?, literal?_append hmore hmark']
      | _ => rfl
  unfold atom at h ⊢
  rw [literal?_append htokens hmark, hnegated]
  cases hliteral : literal? tokens with
  | some taken =>
    rcases taken with ⟨⟨constant, place⟩, width⟩
    rw [hliteral] at h
    cases constant <;> exact h
  | none =>
    cases hnone : negated? tokens with
    | some taken =>
      simp only [hliteral, hnone] at h ⊢
      exact h
    | none =>
      simp only [hliteral, hnone] at h ⊢
      cases tokens with
      | nil => cases h
      | cons first more =>
        cases first with
        | ident text place =>
          simp only [List.cons_append] at h ⊢
          split at h
          · cases h
          · rename_i hconstructor
            split at h
            · cases h
            · rename_i hreserved
              rw [if_neg hconstructor, if_neg hreserved]
              exact h
        | _ => cases h

/-- Take a primary expression before which no comments stand. -/
def lead (strength : Operator → Nat) (stop : Span) : List Token → Except Fault (Taken Expr)
  | .group .paren content span :: _ =>
    (parenthesized strength span.last content).map fun e => ⟨e, 1⟩
  | .group .bracket content span :: _ =>
    (items strength span.last content).map fun es => ⟨.array es, 1⟩
  | .ident text place :: .group .paren content span :: rest =>
    match constructor? text with
    | some ty => (items strength span.last content >>= (construct ty · span)).map fun e => ⟨e, 2⟩
    | none =>
      if Word.isReserved text then
        atom stop (.ident text place :: .group .paren content span :: rest)
      else (items strength span.last content).map fun args => ⟨.call text args, 2⟩
  | rest => atom stop rest

/-- A primary expression is read after the comments before it. -/
theorem primary_eq {tokens : List Token} {skipped : Nat} (hcomments : comments tokens = .ok skipped)
    (stop : Span) :
    primary strength stop tokens =
      (lead strength stop (tokens.drop skipped)).map fun e => ⟨e.value, skipped + e.width⟩ := by
  rw [primary, hcomments]
  simp only [bind, Except.bind]
  generalize tokens.drop skipped = q
  split
  · rename_i content span _
    rw [lead]
    cases parenthesized strength span.last content <;> rfl
  · rename_i content span _
    rw [lead]
    cases items strength span.last content <;> rfl
  · rename_i text place content span rest
    rw [lead]
    cases constructor? text with
    | some ty =>
      dsimp only
      cases items strength span.last content with
      | error fault => rfl
      | ok args =>
        simp only [bind, Except.bind]
        cases construct ty args span <;> rfl
    | none =>
      dsimp only
      split
      · cases atom stop (.ident text place :: .group .paren content span :: rest) <;> rfl
      · cases items strength span.last content <;> rfl
  · rename_i h1 h2 h3
    rw [lead]
    · cases atom stop q <;> rfl
    · exact h1
    · exact h2
    · exact h3

/-- A primary expression starts with a token. -/
theorem lt_length_of_lead {stop : Span} {tokens : List Token} {n : Nat} {found : Taken Expr}
    (h : lead strength stop (tokens.drop n) = .ok found) : n < tokens.length := by
  by_contra hlength
  rw [List.drop_of_length_le (Nat.not_lt.mp hlength)] at h
  cases h

/-- Without comments a primary expression is read in the same way before a mark. -/
theorem lead_append {stop : Span} {tokens : List Token} {found : Taken Expr}
    (h : lead strength stop tokens = .ok found) (c : Char) (joint : Bool) (span : Span)
    (rest : List Token) :
    lead strength stop (tokens ++ .punct c joint span :: rest) = .ok found := by
  unfold lead at h
  split at h
  · exact h
  · exact h
  · rename_i text place content place' more
    rw [List.cons_append, List.cons_append, lead]
    cases hty : constructor? text with
    | some ty =>
      rw [hty] at h
      exact h
    | none =>
      simp only [hty] at h ⊢
      split at h
      · rename_i hreserved
        rw [if_pos hreserved]
        exact atom_append h _
      · rename_i hfree
        rw [if_neg hfree]
        exact h
  · rename_i hparen hbracket hargs
    have hatom := atom_append h (.punct c joint span :: rest)
    rcases tokens with _ | ⟨first, _ | ⟨second, more⟩⟩
    · cases h
    · rw [lead]
      · exact hatom
      · simpa using hparen
      · simpa using hbracket
      · simp
    · rw [lead]
      · exact hatom
      · simpa using hparen
      · simpa using hbracket
      · simpa using hargs

/-- Indices and fields are read in the same way before a mark that is no point. -/
theorem accesses_append {base : Expr} {tokens : List Token} {found : Taken Expr}
    (h : accesses strength base tokens = .ok found) {c : Char} (hc : c ≠ '.') (joint : Bool)
    (span : Span) (rest : List Token) :
    accesses strength base (tokens ++ .punct c joint span :: rest) = .ok found := by
  unfold accesses at h
  split at h
  · rename_i content place more
    rcases bind_eq_ok.mp h with ⟨position, hposition, h⟩
    rcases bind_eq_ok.mp h with ⟨e, he, h⟩
    cases h
    have hmore := accesses_append he hc joint span rest
    rw [List.cons_append, accesses, hposition]
    simp only [bind, Except.bind, hmore]
    rfl
  · rename_i _ joint' place name place' more
    rcases bind_eq_ok.mp h with ⟨e, he, h⟩
    cases h
    have hmore := accesses_append he hc joint span rest
    rw [List.cons_append, List.cons_append, accesses, hmore]
    rfl
  · rename_i hbracket hpoint
    cases h
    rcases tokens with _ | ⟨first, _ | ⟨second, more⟩⟩
    · exact accesses_punct hc base joint span rest
    · rw [accesses]
      · simpa using hbracket
      · simp
    · rw [accesses]
      · simpa using hbracket
      · simpa using hpoint
termination_by tokens.length

/-- A primary expression is read in the same way before a mark. -/
theorem primary_append {stop : Span} {tokens : List Token} {found : Taken Expr}
    (h : primary strength stop tokens = .ok found) (c : Char) (joint : Bool) (span : Span)
    (rest : List Token) :
    primary strength stop (tokens ++ .punct c joint span :: rest) = .ok found := by
  cases hskipped : comments tokens with
  | error fault =>
    rw [primary, hskipped] at h
    cases h
  | ok skipped =>
    rw [primary_eq hskipped, map_eq_ok] at h
    rcases h with ⟨lhs, hlead, hfound⟩
    have hlength := lt_length_of_lead hlead
    rw [primary_eq (comments_stop hskipped hlength rfl), map_eq_ok,
      List.drop_append_of_le_length (Nat.le_of_lt hlength)]
    exact ⟨lhs, lead_append hlead c joint span rest, hfound⟩

/-- An operand that stands alone is read in the same way before a mark that is no point. -/
theorem operand_append {stop : Span} {tokens : List Token} {e : Expr}
    (h : operand strength stop tokens = .ok ⟨e, tokens.length⟩) {c : Char} (hc : c ≠ '.')
    (joint : Bool) (span : Span) (rest : List Token) :
    operand strength stop (tokens ++ .punct c joint span :: rest) = .ok ⟨e, tokens.length⟩ := by
  rw [operand] at h ⊢
  rcases bind_eq_ok.mp h with ⟨base, hbase, h⟩
  rcases bind_eq_ok.mp h with ⟨found, hfound, hwhole⟩
  have hwidth : base.width + found.width = tokens.length :=
    congrArg Taken.width (Except.ok.inj hwhole)
  apply bind_eq_ok.mpr
  refine ⟨base, primary_append hbase c joint span rest, bind_eq_ok.mpr ⟨found, ?_, hwhole⟩⟩
  rw [List.drop_append_of_le_length (by omega)]
  exact accesses_append hfound hc joint span rest

/-- An operand starts with no mark but that of a comment or a minus sign. -/
theorem mark_of_operand {stop : Span} {c : Char} {joint : Bool} {span : Span} {rest : List Token}
    {found : Taken Expr} (h : operand strength stop (.punct c joint span :: rest) = .ok found) :
    c = '#' ∨ c = '-' := by
  by_cases hc : c = '#'
  · exact Or.inl hc
  · exact Or.inr (operand_minus (comments_punct hc joint span rest) rfl h).1

/-- A mark that is the second one of no operator, nor of an arrow, goes into no operator. -/
theorem spelled?_stop {d : Char} (hd : d ∉ ['&', '|', '=', '>']) (c : Char) :
    spelled? c (some d) = spelled? c none := by
  simp only [List.mem_cons, List.not_mem_nil, or_false, not_or] at hd
  unfold spelled?
  grind

/-- An operator that stands alone is read in the same way before an operand. -/
theorem operator?_append {mark after : List Token} {op : Operator}
    (h : operator? mark = some ⟨op, mark.length⟩)
    (hafter : ∀ c joint span rest, after = .punct c joint span :: rest → c = '#' ∨ c = '-') :
    operator? (mark ++ after) = some ⟨op, mark.length⟩ := by
  rcases mark with _ | ⟨first, _ | ⟨second, more⟩⟩
  · cases h
  · cases first with
    | punct c joint span =>
      have hjoined : spelled? c (joined? joint after) = spelled? c none := by
        cases after with
        | nil => rfl
        | cons token rest =>
          cases token with
          | punct d joint' span' =>
            cases joint with
            | false => rfl
            | true =>
              refine spelled?_stop ?_ c
              rcases hafter d joint' span' rest rfl with rfl | rfl <;> decide
          | _ => rfl
      rw [List.singleton_append, operator?, hjoined]
      exact h
    | _ => cases h
  · cases first with
    | punct c joint span =>
      cases second <;> exact h
    | _ => cases h

/-! ## Tokens of a chain -/

/-- An operand of a chain: the comment markers before it, its tokens, and what it is read as. -/
structure Operand where
  comments : List Token
  tokens : List Token
  value : Expr

/-- An operator of a chain with the operand to its right: the comment markers before the operator,
its tokens, and what it is read as. -/
structure Link where
  comments : List Token
  mark : List Token
  op : Operator
  operand : Operand

/-- All tokens of an operand. -/
def Operand.spelling (o : Operand) : List Token :=
  o.comments ++ o.tokens

/-- All tokens of an operator and the operand to its right. -/
def Link.spelling (link : Link) : List Token :=
  link.comments ++ (link.mark ++ link.operand.spelling)

/-- The operator and what the operand to its right is read as. -/
def Link.arm (link : Link) : Arm :=
  (link.op, link.operand.value)

/-- The tokens of a chain. -/
def spelling (first : Operand) (links : List Link) : List Token :=
  first.spelling ++ links.flatMap Link.spelling

/-- Before some tokens, the tokens of an operand are taken as it, and no more and no less. -/
structure Operand.Stands (strength : Operator → Nat) (stop : Span) (o : Operand)
    (after : List Token) : Prop where
  comments : Grammar.comments o.comments = .ok o.comments.length
  tokens : operand strength stop (o.tokens ++ after) = .ok ⟨o.value, o.tokens.length⟩

/-- The tokens of an operator are taken as it, and those of its operand as that. -/
structure Link.Stands (strength : Operator → Nat) (stop : Span) (link : Link) : Prop where
  comments : Grammar.comments link.comments = .ok link.comments.length
  mark : operator? link.mark = some ⟨link.op, link.mark.length⟩
  operand : link.operand.Stands strength stop []

/-- The last operand of a chain. -/
def lastOperand (first : Operand) : List Link → Operand
  | [] => first
  | link :: links => lastOperand link.operand links

/-- Some links of a chain, with the tokens after them. -/
def tokensFrom (links : List Link) (rest : List Token) : List Token :=
  links.flatMap Link.spelling ++ rest

/-- Every operator and every operand of some links is taken where it stands. -/
def InPlace (strength : Operator → Nat) (stop : Span) : List Link → List Token → Prop
  | [], _ => True
  | link :: links, rest =>
    comments link.comments = .ok link.comments.length ∧
      operator? (link.mark ++ (link.operand.spelling ++ tokensFrom links rest)) =
        some ⟨link.op, link.mark.length⟩ ∧
      link.operand.Stands strength stop (tokensFrom links rest) ∧
      InPlace strength stop links rest

variable {stop : Span}

/-- The tokens of the first link stand before those of the others. -/
theorem tokensFrom_cons (link : Link) (links : List Link) (rest : List Token) :
    tokensFrom (link :: links) rest =
      link.comments ++ (link.mark ++ (link.operand.spelling ++ tokensFrom links rest)) := by
  simp [tokensFrom, Link.spelling]

/-- The tokens of some links stand before those of the links after them. -/
theorem tokensFrom_append (links more : List Link) (rest : List Token) :
    tokensFrom (links ++ more) rest = tokensFrom links (tokensFrom more rest) := by
  simp [tokensFrom]

/-- Links that stand in place do so before the links after them. -/
theorem inPlace_append {links more : List Link} {rest : List Token} :
    InPlace strength stop (links ++ more) rest ↔
      InPlace strength stop links (tokensFrom more rest) ∧ InPlace strength stop more rest := by
  induction links with
  | nil => simp [InPlace]
  | cons link links ih => simp only [List.cons_append, InPlace, ih, tokensFrom_append, and_assoc]

/-- Comment markers before an operand are taken with it. -/
theorem operand_comments {markers tokens : List Token} {found : Taken Expr}
    (hmarkers : comments markers = .ok markers.length)
    (h : operand strength stop tokens = .ok found) :
    operand strength stop (markers ++ tokens) =
      .ok ⟨found.value, markers.length + found.width⟩ := by
  rw [operand] at h ⊢
  rcases bind_eq_ok.mp h with ⟨base, hbase, h⟩
  rcases bind_eq_ok.mp h with ⟨e, he, h⟩
  cases h
  cases hskipped : comments tokens with
  | error fault =>
    rw [primary, hskipped] at hbase
    cases hbase
  | ok skipped =>
    have hall : comments (markers ++ tokens) = .ok (markers.length + skipped) := by
      rw [comments_append hmarkers, hskipped]
      rfl
    rw [primary_eq hskipped, map_eq_ok] at hbase
    rcases hbase with ⟨first, hlead, rfl⟩
    rw [primary_eq hall, List.drop_length_add_append, hlead]
    simp only [Except.map, bind, Except.bind, Nat.add_assoc, List.drop_length_add_append, he]
    rfl

/-- An operand is taken with the comment markers before it. -/
theorem Operand.Stands.reads {o : Operand} {after : List Token} (h : o.Stands strength stop after) :
    operand strength stop (o.spelling ++ after) = .ok ⟨o.value, o.spelling.length⟩ := by
  rw [spelling, List.append_assoc, operand_comments h.comments h.tokens, List.length_append]

/-- An expression goes on with a chain after its first operand. -/
theorem Operand.Stands.binary {o : Operand} {after : List Token} {least : Nat} {e : Expr}
    {width : Nat} (h : o.Stands strength stop after)
    (hchain : chain strength least stop o.value after = .ok ⟨e, width⟩) :
    binary strength least stop (o.spelling ++ after) = .ok ⟨e, o.spelling.length + width⟩ := by
  rw [Grammar.binary, h.reads]
  simp only [bind, Except.bind, List.drop_left, hchain]
  rfl

/-- A link starts with a mark that is no point. -/
theorem Link.Stands.mark_first {link : Link} (h : link.Stands strength stop) :
    ∃ c joint span rest, c ≠ '.' ∧ link.spelling = .punct c joint span :: rest := by
  unfold spelling
  cases hcomments : link.comments with
  | nil =>
    have hmark := h.mark
    unfold operator? at hmark
    split at hmark
    · rename_i c joint span rest htokens
      refine ⟨c, joint, span, _, ?_, by rw [htokens]; rfl⟩
      rintro rfl
      cases hmark
    · cases hmark
  | cons token more =>
    have hfirst := h.comments
    rw [hcomments] at hfirst
    unfold Grammar.comments at hfirst
    split at hfirst
    · rename_i joint place content span rest htokens
      exact ⟨'#', joint, place, _, by decide, by rw [htokens]; rfl⟩
    · cases hfirst

/-- Operators and operands that are taken alone are taken where they stand in a chain, if the last
operand is. -/
theorem inPlace_of_stands {links : List Link} {rest : List Token}
    (hlinks : ∀ link ∈ links, link.Stands strength stop) (o : Operand)
    (ho : o.Stands strength stop []) (hlast : (lastOperand o links).Stands strength stop rest) :
    o.Stands strength stop (tokensFrom links rest) ∧ InPlace strength stop links rest := by
  induction links generalizing o with
  | nil => exact ⟨hlast, trivial⟩
  | cons link links ih =>
    rw [List.forall_mem_cons] at hlinks
    rcases hlinks with ⟨hlink, hlinks⟩
    rcases ih hlinks link.operand hlink.operand hlast with ⟨hoperand, hplace⟩
    constructor
    · rcases hlink.mark_first with ⟨c, joint, span, more, hc, hspelling⟩
      have htokens := ho.tokens
      rw [List.append_nil] at htokens
      refine ⟨ho.comments, ?_⟩
      rw [tokensFrom, List.flatMap_cons, hspelling, List.cons_append, List.cons_append]
      exact operand_append htokens hc joint span _
    · refine ⟨hlink.comments, operator?_append hlink.mark ?_, hoperand, hplace⟩
      intro c joint span more hmore
      have hreads := hoperand.reads
      rw [hmore] at hreads
      exact mark_of_operand hreads

/-! ## Reading chains -/

/-- After comments, no operator follows that binds at least as tight as `least`. -/
def Stops (strength : Operator → Nat) (least : Nat) (tokens : List Token) : Prop :=
  ∃ skipped, comments tokens = .ok skipped ∧
    ∀ op, operator? (tokens.drop skipped) = some op → strength op.value < least

/-- A chain is over where no operator follows that binds tight enough. -/
theorem Stops.chain {least : Nat} {tokens : List Token} (h : Stops strength least tokens)
    (lhs : Expr) : chain strength least stop lhs tokens = .ok ⟨lhs, 0⟩ := by
  rcases h with ⟨skipped, hskipped, hop⟩
  rw [chain_eq, hskipped]
  simp only [bind, Except.bind]
  cases hfound : operator? (tokens.drop skipped) with
  | none => rfl
  | some op =>
    dsimp only
    rw [if_pos (hop op hfound)]
    rfl

/-- What is passed over before a link, and what stands after that. -/
theorem InPlace.comments_eq {link : Link} {links : List Link} {rest : List Token}
    (h : InPlace strength stop (link :: links) rest) :
    comments (tokensFrom (link :: links) rest) = .ok link.comments.length := by
  rcases h with ⟨hcomments, hmark, -, -⟩
  rcases exists_of_operator? hmark with ⟨c, joint, span, more, hmore, hnone⟩
  rw [tokensFrom_cons, comments_append hcomments, hmore, hnone]
  rfl

/-- An operator that does not bind tight enough ends a chain. -/
theorem InPlace.stops {link : Link} {links : List Link} {rest : List Token} {least : Nat}
    (h : InPlace strength stop (link :: links) rest) (hweak : strength link.op < least) :
    Stops strength least (tokensFrom (link :: links) rest) := by
  refine ⟨link.comments.length, h.comments_eq, fun op hop => ?_⟩
  rw [tokensFrom_cons, List.drop_left, h.2.1] at hop
  cases hop
  exact hweak

/-- The operand to the right of an operator takes the links that bind tighter; the others are left,
of which the first does not. -/
theorem exists_taken (strength : Operator → Nat) (op : Operator) (links : List Link) :
    ∃ taken left, links = taken ++ left ∧ (∀ l ∈ taken, strength op < strength l.op) ∧
      (∀ l ∈ left.head?, strength l.op ≤ strength op) ∧
      ∀ lhs e, climb strength lhs ((op, e) :: links.map Link.arm) =
        climb strength (.binary op lhs (climb strength e (taken.map Link.arm)))
          (left.map Link.arm) := by
  refine ⟨links.takeWhile (bindsTighter strength op ∘ Link.arm),
    links.dropWhile (bindsTighter strength op ∘ Link.arm), List.takeWhile_append_dropWhile.symm,
    fun l hl => ?_, fun l hl => ?_, fun lhs e => ?_⟩
  · have htighter := List.mem_takeWhile_imp hl
    exact bindsTighter_iff.mp htighter
  · have hfirst := List.head?_dropWhile_not (bindsTighter strength op ∘ Link.arm) links
    rw [Option.mem_def.mp hl] at hfirst
    have hloose : ¬ bindsTighter strength op l.arm := Bool.not_eq_true _ ▸ hfirst
    rw [bindsTighter_iff] at hloose
    exact Nat.not_lt.mp hloose
  · rw [climb, List.takeWhile_map, List.dropWhile_map]

/-- The reader of chains climbs: it joins the links to the expression before them, and takes all
their tokens. -/
theorem chain_reads {least : Nat} {rest : List Token} (hrest : Stops strength least rest)
    (lhs : Expr) (links : List Link) (hplace : InPlace strength stop links rest)
    (htight : ∀ link ∈ links, least ≤ strength link.op) :
    chain strength least stop lhs (tokensFrom links rest) =
      .ok ⟨climb strength lhs (links.map Link.arm), (links.flatMap Link.spelling).length⟩ := by
  match links with
  | [] =>
    rw [List.map_nil, climb]
    exact hrest.chain lhs
  | link :: links =>
    have hcomments := hplace.comments_eq
    rcases hplace with ⟨-, hmark, hoperand, hlinks⟩
    rw [List.forall_mem_cons] at htight
    rcases exists_taken strength link.op links with ⟨taken, left, hsplit, htighter, hloose, hclimb⟩
    have hlength : links.length = taken.length + left.length := by
      rw [hsplit, List.length_append]
    have hspellings : (links.flatMap Link.spelling).length =
        (taken.flatMap Link.spelling).length + (left.flatMap Link.spelling).length := by
      rw [hsplit, List.flatMap_append, List.length_append]
    rw [hsplit, inPlace_append] at hlinks
    rw [hsplit, tokensFrom_append] at hoperand
    have hstops : Stops strength (strength link.op + 1) (tokensFrom left rest) := by
      cases left with
      | nil =>
        rcases hrest with ⟨skipped, hskipped, hweak⟩
        refine ⟨skipped, hskipped, fun op hop => ?_⟩
        have hlow := hweak op hop
        omega
      | cons next more => exact hlinks.2.stops (Nat.lt_succ_of_le (hloose next rfl))
    -- first the operand on the right, then the loop
    have hbinary := hoperand.binary (chain_reads hstops link.operand.value taken hlinks.1 htighter)
    have hchain := chain_reads hrest
      (.binary link.op lhs (climb strength link.operand.value (taken.map Link.arm))) left hlinks.2
      fun l hl => htight.2 l (hsplit ▸ List.mem_append_right taken hl)
    have hdrop : (tokensFrom (link :: links) rest).drop
        (link.comments.length + link.mark.length) =
        link.operand.spelling ++ tokensFrom taken (tokensFrom left rest) := by
      rw [tokensFrom_cons, List.drop_length_add_append, List.drop_left, hsplit, tokensFrom_append]
    have hdropMore : (tokensFrom (link :: links) rest).drop
        (link.comments.length + link.mark.length +
          (link.operand.spelling.length + (taken.flatMap Link.spelling).length)) =
        tokensFrom left rest := by
      rw [← List.drop_drop, hdrop, List.drop_length_add_append, tokensFrom, List.drop_left]
    rw [chain_eq, hcomments]
    simp only [bind, Except.bind]
    rw [tokensFrom_cons, List.drop_left, hmark, ← tokensFrom_cons]
    dsimp only
    rw [if_neg (Nat.not_lt.mpr htight.1), hdrop, hbinary]
    dsimp only
    rw [hdropMore, hchain, List.map_cons, Link.arm, hclimb]
    simp only [pure, Except.pure, List.flatMap_cons, List.length_append, Link.spelling, hspellings,
      Except.ok.injEq, Taken.mk.injEq, true_and]
    omega
termination_by links.length
decreasing_by
  · simp only [List.length_cons]
    omega
  · simp only [List.length_cons]
    omega

/-- An expression is given the tree of its chain.  Let there be operands with operators between
them, all with comment markers before them, such that each operand and each operator is taken
exactly where it stands alone, and the last operand also before the tokens after the chain.  If
these start with no operator after comments, all tokens of the chain are taken and read as its
tree. -/
theorem binary_eq_ladder {first : Operand} {links : List Link} {rest : List Token} {skipped : Nat}
    (hfirst : first.Stands strength stop []) (hlinks : ∀ link ∈ links, link.Stands strength stop)
    (hlast : (lastOperand first links).Stands strength stop rest)
    (hrest : comments rest = .ok skipped) (hover : operator? (rest.drop skipped) = none) :
    binary strength 0 stop (spelling first links ++ rest) =
      .ok ⟨ladder strength first.value (links.map Link.arm), (spelling first links).length⟩ := by
  rcases inPlace_of_stands hlinks first hfirst hlast with ⟨hoperand, hplace⟩
  have hstops : Stops strength 0 rest := by
    refine ⟨skipped, hrest, fun op hop => ?_⟩
    rw [hover] at hop
    cases hop
  have hchain := chain_reads hstops first.value links hplace fun link _ => Nat.zero_le _
  rw [spelling, List.append_assoc, List.length_append, ← climb_eq_ladder]
  exact hoperand.binary hchain

/-- A comment marker. -/
def remark : List Token :=
  [.punct '#' false .origin,
    .group .bracket [.ident "line" .origin, .punct '=' false .origin,
      .literal (.string ['x']) .origin] .origin]

/-- A name as an operand. -/
def named (name : String) : Operand :=
  ⟨[], [.ident name .origin], .ref name⟩

/-- The links of `a - b <= -2 * c + d`, with comments before the first operator and before the
number. -/
def comparison : List Link :=
  [⟨remark, [.punct '-' false .origin], .sub, named "b"⟩,
    ⟨[], [.punct '<' true .origin, .punct '=' false .origin], .lte,
      ⟨remark, [.punct '-' false .origin, .literal (.number "2".toList) .origin], .int (-2)⟩⟩,
    ⟨[], [.punct '*' false .origin], .mul, named "c"⟩,
    ⟨[], [.punct '+' false .origin], .add, named "d"⟩]

/-- A comparison is read up to a semicolon. -/
theorem expr_comparison :
    (named "a").Stands Operator.prec .origin [] ∧
      (∀ link ∈ comparison, link.Stands Operator.prec .origin) ∧
      expr .origin (spelling (named "a") comparison ++ [.punct ';' false .origin]) =
        .ok ⟨.binary .lte (.binary .sub (.ref "a") (.ref "b"))
          (.binary .add (.binary .mul (.int (-2)) (.ref "c")) (.ref "d")), 15⟩ := by
  have hfirst : (named "a").Stands Operator.prec .origin [] := ⟨rfl, by with_unfolding_all rfl⟩
  have hlinks : ∀ link ∈ comparison, link.Stands Operator.prec .origin := by
    simp only [comparison, List.forall_mem_cons, List.not_mem_nil, IsEmpty.forall_iff,
      implies_true, and_true]
    with_unfolding_all
      exact ⟨⟨rfl, rfl, rfl, rfl⟩, ⟨rfl, rfl, rfl, rfl⟩, ⟨rfl, rfl, rfl, rfl⟩, ⟨rfl, rfl, rfl, rfl⟩⟩
  have hlast : (lastOperand (named "a") comparison).Stands Operator.prec .origin
      [.punct ';' false .origin] := ⟨rfl, by with_unfolding_all rfl⟩
  have hladder : ladder Operator.prec (named "a").value (comparison.map Link.arm) =
      .binary .lte (.binary .sub (.ref "a") (.ref "b"))
        (.binary .add (.binary .mul (.int (-2)) (.ref "c")) (.ref "d")) := by
    with_unfolding_all rfl
  have hreads := binary_eq_ladder hfirst hlinks hlast rfl rfl
  rw [hladder] at hreads
  exact ⟨hfirst, hlinks, hreads⟩

end Grammar

end ShaderLang
