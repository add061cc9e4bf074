import ShaderLang.Proofs.Separation

/-!
# Statements before every end

Where the enclosing group ends matters for the blame only, for the readers of statements as for
those of expressions: what is read before one end of the group is read before every end.  So the
tokens of a block are read in braces as they are read alone.

Main results:

- Theorem `IgnoresEnd.bind`: readers one after the other, each of which ignores the end.
- Theorem `ignoresEnd_ty`, `ignoresEnd_expr`: types and expressions are read before every end.
- Theorem `ignoresEnd_stmt`: so is a statement.
- Theorem `stmts_stop`: so are all statements of a group.
- Theorem `braced_of_readBlock`: a block is read in braces as it is read alone.
-/

namespace ShaderLang

namespace Grammar

variable {α β : Type}

/-! ## Readers and the end of the enclosing group -/

/-- What a reader finds before one end of the enclosing group it finds before every end. -/
def IgnoresEnd (run : Span → List Token → Except Fault α) : Prop :=
  ∀ stop stop' tokens a, run stop tokens = .ok a → run stop' tokens = .ok a

/-- Readers that ignore the end may stand one after the other. -/
theorem IgnoresEnd.bind {run : Span → List Token → Except Fault α}
    {next : α → Span → List Token → Except Fault β} (hrun : IgnoresEnd run)
    (hnext : ∀ a, IgnoresEnd (next a)) :
    IgnoresEnd fun stop tokens => run stop tokens >>= fun a => next a stop tokens := by
  intro stop stop' tokens b h
  rcases bind_eq_ok.mp h with ⟨a, ha, hb⟩
  exact bind_eq_ok.mpr ⟨a, hrun stop stop' tokens a ha, hnext a stop stop' tokens b hb⟩

/-- What a reader finds may be put to use. -/
theorem IgnoresEnd.map {run : Span → List Token → Except Fault α} (hrun : IgnoresEnd run)
    (f : α → β) : IgnoresEnd fun stop tokens => run stop tokens >>= fun a => pure (f a) :=
  hrun.bind fun _ _ _ _ _ h => h

/-- A reader that ignores the end may start after some tokens. -/
theorem IgnoresEnd.drop {run : Span → List Token → Except Fault α} (hrun : IgnoresEnd run)
    (count : List Token → Nat) :
    IgnoresEnd fun stop tokens => run stop (tokens.drop (count tokens)) :=
  fun stop stop' tokens => hrun stop stop' (tokens.drop (count tokens))

/-- A reader may look at the tokens before it starts. -/
theorem IgnoresEnd.look {run : β → Span → List Token → Except Fault α}
    (hrun : ∀ seen, IgnoresEnd (run seen)) (see : List Token → β) :
    IgnoresEnd fun stop tokens => run (see tokens) stop tokens :=
  fun stop stop' tokens => hrun (see tokens) stop stop' tokens

/-! ## Words, names and types -/

/-- A mark is read before every end. -/
theorem ignoresEnd_mark (c : Char) : IgnoresEnd (mark c) := by
  intro stop stop' tokens found h
  have hmark := of_ite_eq_ok h
  rw [mark, if_pos hmark] at h ⊢
  exact h

/-- A word is read before every end. -/
theorem ignoresEnd_word (text : String) : IgnoresEnd (word text) := by
  intro stop stop' tokens found h
  have hword := of_ite_eq_ok h
  rw [word, if_pos hword] at h ⊢
  exact h

/-- A name is read before every end. -/
theorem ignoresEnd_name : IgnoresEnd name := by
  intro stop stop' tokens found h
  cases tokens with
  | nil => cases h
  | cons token rest => cases token <;> exact h

/-- A type is read before every end. -/
theorem ignoresEnd_ty : IgnoresEnd ty := by
  intro stop stop' tokens found h
  unfold ty at h ⊢
  split at h
  · exact h
  · split at h
    · exact h
    · cases h
  · cases h

/-! ## Statements -/

/-- An expression is read before every end. -/
theorem ignoresEnd_expr : IgnoresEnd expr :=
  fun _ stop' _ _ h => binary_stop stop' h

/-- A value with or without an equals sign is read before every end. -/
theorem ignoresEnd_assigned : IgnoresEnd assigned :=
  (ignoresEnd_expr.drop signsBefore).bind fun _ _ _ _ _ h => h

/-- A type, a name and a value are read before every end. -/
theorem ignoresEnd_binding : IgnoresEnd binding := by
  change IgnoresEnd fun stop tokens => binding stop tokens
  simp only [binding, List.drop_drop]
  refine ignoresEnd_ty.bind fun ty => ?_
  refine (ignoresEnd_name.drop fun _ => _).bind fun name => ?_
  refine ((ignoresEnd_mark '=').drop fun _ => _).bind fun _ => ?_
  exact (ignoresEnd_expr.drop fun _ => _).map _

/-- A name and the value assigned to it are read before every end. -/
theorem ignoresEnd_assignment : IgnoresEnd assignment := by
  refine ignoresEnd_name.bind fun name => ?_
  exact (ignoresEnd_assigned.drop fun _ => _).map _

/-- A group in braces is read before every end. -/
theorem ignoresEnd_braced : IgnoresEnd braced := by
  intro stop stop' tokens found h
  unfold braced at h ⊢
  split at h
  · exact h
  · cases h

/-- A comment marker is read before every end. -/
theorem ignoresEnd_comment : IgnoresEnd comment := by
  intro stop stop' tokens found h
  rcases bind_eq_ok.mp h with ⟨sign, hsign, h⟩
  refine bind_eq_ok.mpr ⟨sign, ignoresEnd_mark '#' stop stop' tokens sign hsign, ?_⟩
  split at h
  · exact h
  · cases h

mutual

/-- A branch is read before every end. -/
theorem branch_stop {stop : Span} {tokens : List Token} {found : Taken Expr} (stop' : Span)
    (h : branch stop tokens = .ok found) : branch stop' tokens = .ok found := by
  rw [branch_eq] at h ⊢
  rcases bind_eq_ok.mp h with ⟨cond, hcond, h⟩
  rcases bind_eq_ok.mp h with ⟨yes, hyes, h⟩
  rcases bind_eq_ok.mp h with ⟨no, hno, h⟩
  refine bind_eq_ok.mpr ⟨cond, binary_stop stop' hcond, ?_⟩
  refine bind_eq_ok.mpr ⟨yes, ignoresEnd_braced stop stop' _ yes hyes, ?_⟩
  exact bind_eq_ok.mpr ⟨no, otherwise_stop stop' hno, h⟩
termination_by 2 * tokens.length + 1
decreasing_by
  simp only [List.length_drop]
  omega

/-- What follows the first block of a branch is read before every end. -/
theorem otherwise_stop {stop : Span} {tokens : List Token} {found : Taken Block} (stop' : Span)
    (h : otherwise stop tokens = .ok found) : otherwise stop' tokens = .ok found := by
  unfold otherwise at h ⊢
  split at h
  · rcases bind_eq_ok.mp h with ⟨no, hno, h⟩
    exact bind_eq_ok.mpr ⟨no, branch_stop stop' hno, h⟩
  · rcases bind_eq_ok.mp h with ⟨no, hno, h⟩
    exact bind_eq_ok.mpr ⟨no, ignoresEnd_braced stop stop' _ no hno, h⟩
  · exact h
termination_by 2 * tokens.length

end

/-- A loop is read before every end. -/
theorem ignoresEnd_loopAfter (counter : Option String) :
    IgnoresEnd fun stop tokens => loopAfter stop counter tokens := by
  refine (ignoresEnd_expr.drop fun _ => _).bind fun bound => ?_
  refine ((ignoresEnd_word "do").drop fun _ => _).bind fun _ => ?_
  exact (ignoresEnd_braced.drop fun _ => _).map _

/-- The word that a statement starts with decides how it is read before every end. -/
theorem clause?_stop {stop : Span} {text : String} {reader : List Token → Except Fault (Taken Expr)}
    (h : clause? stop text = some reader) (stop' : Span) :
    ∃ reader', clause? stop' text = some reader' ∧
      ∀ tokens found, reader tokens = .ok found → reader' tokens = .ok found := by
  unfold clause? at h
  split at h
  case h_1 | h_2 =>
    cases h
    exact ⟨_, rfl, ignoresEnd_binding.map _ stop stop'⟩
  case h_3 | h_4 =>
    cases h
    exact ⟨_, rfl, ignoresEnd_assignment.map _ stop stop'⟩
  · cases h
    exact ⟨_, rfl, fun _ _ => branch_stop stop'⟩
  · cases h
    exact ⟨_, rfl, IgnoresEnd.look ignoresEnd_loopAfter counter? stop stop'⟩
  · cases h

/-- A statement is read before every end. -/
theorem ignoresEnd_stmt : IgnoresEnd stmt := by
  intro stop stop' tokens found h
  rcases clause_or_unmarked stop tokens with ⟨text, place, more, reader, rfl, hreader⟩ | hnone
  · rcases clause?_stop hreader stop' with ⟨reader', hreader', hreads⟩
    rw [stmt_clause hreader] at h
    rw [stmt_clause hreader']
    rcases bind_eq_ok.mp h with ⟨e, he, h⟩
    exact bind_eq_ok.mpr ⟨e, hreads more e he, h⟩
  · have hnone' : ∀ text place more, tokens = .ident text place :: more →
        clause? stop' text = none := by
      intro text place more heq
      by_contra hsome
      rcases Option.ne_none_iff_exists'.mp hsome with ⟨reader, hreader⟩
      rcases clause?_stop hreader stop with ⟨reader', hreader', -⟩
      rw [hnone text place more heq] at hreader'
      cases hreader'
    rw [stmt_unmarked hnone] at h
    rw [stmt_unmarked hnone']
    by_cases hcomment : startsComment tokens = true
    · rw [if_pos hcomment] at h ⊢
      exact ignoresEnd_comment stop stop' tokens found h
    · rw [if_neg hcomment] at h ⊢
      exact binary_stop stop' h

/-! ## Blocks -/

/-- All statements of a group are read before every end. -/
theorem stmts_stop {stop : Span} {tokens : List Token} {found : List Expr} (stop' : Span)
    (h : stmts stop tokens = .ok found) : stmts stop' tokens = .ok found := by
  match tokens, h with
  | [], h =>
    rw [stmts] at h ⊢
    exact h
  | token :: rest, h =>
    rw [stmts] at h ⊢
    by_cases hmark : startsMark ';' (token :: rest) = true
    · rw [if_pos hmark] at h ⊢
      exact stmts_stop stop' h
    · rw [if_neg hmark] at h ⊢
      rcases bind_eq_ok.mp h with ⟨first, hfirst, h⟩
      rcases bind_eq_ok.mp h with ⟨more, hmore, h⟩
      refine bind_eq_ok.mpr ⟨first, ignoresEnd_stmt stop stop' _ first hfirst, ?_⟩
      exact bind_eq_ok.mpr ⟨more, stmts_stop stop' hmore, h⟩
termination_by tokens.length

/-- A block is read in braces as it is read alone. -/
theorem braced_of_readBlock {body : List Token} {b : Block} (h : readBlock body = .ok b)
    (stop span : Span) (rest : List Token) :
    braced stop (.group .brace body span :: rest) = .ok b := by
  rcases readBlock_eq_ok_iff.mp h with ⟨found, hfound, rfl, -⟩
  rw [braced, stmts_stop span.last hfound]
  rfl

end Grammar

end ShaderLang
