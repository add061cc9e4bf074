import ShaderLang.Grammar.Declaration
import ShaderLang.Proofs.Parentheses
import ShaderLang.Proofs.Spelling

/-!
# Readers that do not look ahead

A steady reader finds the same, whatever follows the tokens that it passes.  Readers that are built
of steady ones are steady: one after the other, or one of two by a choice that what follows cannot
change.  The result of a function is the one piece that is not steady on its own, since it may be
left out; it is steady together with the equals sign that has to stand after it.

A stray is a token in a comment marker after its text.  Steadiness also says which strays a reader
passes: none before a body.

Main results:

- Theorem `Steady.bind`: steady readers one after the other are steady.
- Theorem `Steady.ite`: a choice between steady readers is steady if what follows cannot change it.
- Theorem `steady_ty`: a type is read steadily.
- Theorem `steady_signature`: a signature is read steadily.
- Theorem `steady_funcSignature`: the signature of a function is read steadily together with the
  equals sign after it.
-/

namespace ShaderLang

namespace Grammar

variable {α β : Type}

/-! ## Steady readers -/

/-- On the way from some tokens to the tokens `after` in them, the first stray is `hidden`, whatever
follows. -/
def Passes (hidden : Option Span) (tokens after : List Token) : Prop :=
  ∀ more, strays (tokens ++ more) = hidden.or (strays (after ++ more))

/-- There is no stray where there is no way. -/
theorem Passes.refl (tokens : List Token) : Passes none tokens tokens :=
  fun _ => rfl

/-- The first stray on a way is the first one on its first part, or else on its second part. -/
theorem Passes.trans {hidden hidden' : Option Span} {tokens middle after : List Token}
    (h : Passes hidden tokens middle) (h' : Passes hidden' middle after) :
    Passes (hidden.or hidden') tokens after := by
  intro more
  rw [h more, h' more, Option.or_assoc]

/-- A reader that goes on after `start` tokens finds `a` before `stop` tokens are passed, whatever
follows the tokens; and it passes no stray if what it finds is `plain`. -/
structure Settled (run : List Token → Except Fault α) (start stop : Nat) (plain : Prop)
    (tokens : List Token) (a : α) : Prop where
  le_length : stop ≤ tokens.length
  reads : ∀ more, run (tokens ++ more) = .ok a
  passes : ∃ hidden, (plain → hidden = none) ∧
    Passes hidden (tokens.drop start) (tokens.drop stop)

/-- All that a reader finds is settled by the tokens that it passes. -/
def Steady (start : Nat) (stop : α → Nat) (plain : α → Prop)
    (run : List Token → Except Fault α) : Prop :=
  ∀ tokens a, start ≤ tokens.length → run tokens = .ok a →
    Settled run start (stop a) (plain a) tokens a

/-- Everything counts as plain. -/
abbrev Plain : α → Prop :=
  fun _ => True

section Steady

variable {start n : Nat} {stop : α → Nat} {stop' : β → Nat} {plain : α → Prop} {plain' : β → Prop}

/-- A result without reading is steady. -/
theorem Steady.ok {a : α} (h : stop a = start) :
    Steady start stop plain fun _ => .ok a := by
  rintro tokens _ hstart ⟨⟩
  exact ⟨h ▸ hstart, fun _ => rfl, none, fun _ => rfl, h ▸ Passes.refl _⟩

/-- Steady readers one after the other are steady. -/
theorem Steady.bind {run : List Token → Except Fault α} {next : α → List Token → Except Fault β}
    (hrun : Steady start stop Plain run) (hnext : ∀ a, Steady (stop a) stop' plain' (next a)) :
    Steady start stop' plain' fun tokens => run tokens >>= fun a => next a tokens := by
  intro tokens b hstart h
  obtain ⟨a, ha, hb⟩ := bind_eq_ok.mp h
  obtain ⟨hlength, hreads, hidden, hplain, hpasses⟩ := hrun tokens a hstart ha
  obtain rfl := hplain trivial
  obtain ⟨hlength', hreads', hidden', hplain', hpasses'⟩ := hnext a tokens b hlength hb
  refine ⟨hlength', fun more => bind_eq_ok.mpr ⟨a, hreads more, hreads' more⟩, hidden', hplain', ?_⟩
  exact hpasses.trans hpasses'

/-- What a steady reader finds may be put to use without reading on. -/
theorem Steady.map {run : List Token → Except Fault α} (h : Steady start stop plain run) {f : α → β}
    (hstop : ∀ a, stop' (f a) = stop a) (hplain : ∀ a, plain' (f a) → plain a) :
    Steady start stop' plain' fun tokens => run tokens >>= fun a => pure (f a) := by
  intro tokens b hstart hb
  obtain ⟨a, ha, hfound⟩ := bind_eq_ok.mp hb
  cases hfound
  obtain ⟨hlength, hreads, hidden, hhidden, hpasses⟩ := h tokens a hstart ha
  rw [hstop]
  refine ⟨hlength, fun more => bind_eq_ok.mpr ⟨a, hreads more, rfl⟩, hidden, ?_, hpasses⟩
  exact fun hb => hhidden (hplain a hb)

/-- A steady reader is steady after some tokens. -/
theorem Steady.drop {reader : List Token → Except Fault α} (h : Steady 0 stop plain reader)
    (hn : start = n) :
    Steady start (fun a => n + stop a) plain fun tokens => reader (tokens.drop n) := by
  subst hn
  intro tokens a hstart ha
  obtain ⟨hlength, hreads, hidden, hplain, hpasses⟩ := h (tokens.drop start) a (Nat.zero_le _) ha
  refine ⟨?_, fun more => ?_, hidden, hplain, ?_⟩
  · simp only [List.length_drop] at hlength ⊢
    omega
  · simp only [List.drop_append_of_le_length hstart]
    exact hreads more
  · rwa [List.drop_zero, List.drop_drop] at hpasses

/-- A reader that stops at one place stops at any place that is the same. -/
theorem Steady.congr {stop' : α → Nat} {run : List Token → Except Fault α}
    (h : Steady start stop plain run)
    (hstop : ∀ tokens, Gives (fun a => stop a = stop' a) (run tokens)) :
    Steady start stop' plain run := by
  intro tokens a hstart ha
  rw [← hstop tokens a ha]
  exact h tokens a hstart ha

/-- A reader is steady if it decides by the tokens that it takes. -/
theorem Steady.of_taken {reader : List Token → Except Fault α}
    (h : ∀ tokens a, reader tokens = .ok a → ∃ taken rest hidden, tokens = taken ++ rest ∧
      stop a = taken.length ∧ (∀ more, reader (taken ++ more) = .ok a) ∧
      (plain a → hidden = none) ∧ ∀ more, strays (taken ++ more) = hidden.or (strays more)) :
    Steady 0 stop plain reader := by
  intro tokens a _ ha
  obtain ⟨taken, rest, hidden, rfl, hstop, hreads, hplain, hstrays⟩ := h tokens a ha
  refine ⟨?_, fun more => ?_, hidden, hplain, fun more => ?_⟩
  · rw [hstop, List.length_append]
    omega
  · rw [List.append_assoc]
    exact hreads _
  · rw [List.drop_zero, hstop, List.drop_left, List.append_assoc]
    exact hstrays _

/-- A choice between steady readers is steady if what follows cannot change it. -/
theorem Steady.ite {test : List Token → Bool} {yes no : List Token → Except Fault α}
    (htest : ∀ tokens a more, (if test tokens then yes tokens else no tokens) = .ok a →
      test (tokens ++ more) = test tokens)
    (hyes : Steady start stop plain yes) (hno : Steady start stop plain no) :
    Steady start stop plain fun tokens => if test tokens then yes tokens else no tokens := by
  intro tokens a hstart h
  have htest := fun more => htest tokens a more h
  cases hcase : test tokens with
  | true =>
    obtain ⟨hlength, hreads, hpasses⟩ := hyes tokens a hstart (by simpa [hcase] using h)
    refine ⟨hlength, fun more => ?_, hpasses⟩
    simp only [htest, hcase, if_true, hreads more]
  | false =>
    obtain ⟨hlength, hreads, hpasses⟩ := hno tokens a hstart (by simpa [hcase] using h)
    refine ⟨hlength, fun more => ?_, hpasses⟩
    simp only [htest, hcase, Bool.false_eq_true, if_false, hreads more]

/-- A steady reader passes no comment marker to find something plain. -/
theorem Steady.strays_drop {reader : List Token → Except Fault α}
    (h : Steady 0 stop Plain reader) {tokens : List Token} {a : α} (ha : reader tokens = .ok a) :
    strays tokens = strays (tokens.drop (stop a)) := by
  obtain ⟨-, -, hidden, hplain, hpasses⟩ := h tokens a (Nat.zero_le _) ha
  obtain rfl := hplain trivial
  simpa using hpasses []

end Steady

/-! ## Single tokens -/

/-- A reader that refuses tokens without a property succeeds only on tokens with it. -/
theorem of_ite_eq_ok {c : Prop} [Decidable c] {fault : Fault} {a b : α}
    (h : (if c then .ok a else .error fault) = Except.ok b) : c := by
  by_contra hc
  rw [if_neg hc] at h
  cases h

/-- An identifier is no stray and starts no comment marker. -/
theorem strays_ident (text : String) (span : Span) (rest : List Token) :
    strays (.ident text span :: rest) = strays rest := by
  rw [strays]
  all_goals simp

/-- A literal is no stray and starts no comment marker. -/
theorem strays_literal (value : Literal) (span : Span) (rest : List Token) :
    strays (.literal value span :: rest) = strays rest := by
  rw [strays]
  all_goals simp

/-- The strays in a group come before those after it. -/
theorem strays_group (delim : Delim) (content : List Token) (span : Span) (rest : List Token) :
    strays (.group delim content span :: rest) = (strays content).or (strays rest) := by
  rw [strays]

/-- A mark that starts no comment is read steadily. -/
theorem steady_mark {c : Char} (hc : c ≠ '#') (stop : Span) :
    Steady 0 (fun _ => 1) Plain (mark c stop) := by
  refine Steady.of_taken fun tokens found h => ?_
  obtain ⟨joint, span, rest, rfl⟩ := startsMark_iff.mp (of_ite_eq_ok h)
  refine ⟨[.punct c joint span], rest, none, rfl, rfl, fun more => ?_, fun _ => rfl, ?_⟩
  · rw [← h]
    rfl
  · exact fun more => strays_punct hc joint span more

/-- A name is read steadily. -/
theorem steady_name (stop : Span) : Steady 0 (fun _ => 1) Plain (name stop) := by
  refine Steady.of_taken fun tokens found h => ?_
  unfold name at h
  split at h
  · cases h
  · rename_i text span rest
    split at h
    · cases h
    · rename_i hreserved
      cases h
      refine ⟨[.ident text span], rest, none, rfl, rfl, fun more => ?_, fun _ => rfl, ?_⟩
      · simp [name, hreserved]
      · exact fun more => strays_ident text span more
  · cases h

/-- The name of a declaration is read steadily. -/
theorem steady_declName (stop : Span) : Steady 0 (fun _ => 1) Plain (declName stop) := by
  refine Steady.bind (steady_name stop) fun ident => ?_
  split
  · exact Steady.ok rfl
  · rintro tokens a - ⟨⟩

/-- A word is read steadily. -/
theorem steady_word (text : String) (stop : Span) :
    Steady 0 (fun _ => 1) Plain (word text stop) := by
  refine Steady.of_taken fun tokens found h => ?_
  obtain ⟨span, rest, rfl⟩ := startsWord_iff.mp (of_ite_eq_ok h)
  refine ⟨[.ident text span], rest, none, rfl, rfl, fun more => ?_, fun _ => rfl, ?_⟩
  · rw [← h]
    rfl
  · exact fun more => strays_ident text span more

/-- Two joined marks stand first exactly if the first two tokens are those marks. -/
theorem startsPair_iff {first second : Char} {tokens : List Token} :
    startsPair first second tokens = true ↔ ∃ span joint span' rest,
      tokens = .punct first true span :: .punct second joint span' :: rest := by
  constructor
  · intro h
    unfold startsPair at h
    split at h
    · simp only [Bool.and_eq_true, beq_iff_eq] at h
      obtain ⟨⟨rfl, rfl⟩, hsecond⟩ := h
      obtain ⟨joint, span', rest, rfl⟩ := startsMark_iff.mp hsecond
      exact ⟨_, joint, span', rest, rfl⟩
    · cases h
  · rintro ⟨span, joint, span', rest, rfl⟩
    simp [startsPair, startsMark]

/-- The arrow of a signature is read steadily. -/
theorem steady_arrow (stop : Span) : Steady 0 (fun _ => 2) Plain (pair '-' '>' stop) := by
  refine Steady.of_taken fun tokens found h => ?_
  obtain ⟨span, joint, span', rest, rfl⟩ := startsPair_iff.mp (of_ite_eq_ok h)
  refine ⟨[.punct '-' true span, .punct '>' joint span'], rest, none, rfl, rfl, fun more => ?_,
    fun _ => rfl, fun more => ?_⟩
  · rw [← h]
    rfl
  · exact (strays_punct (by decide) _ _ _).trans (strays_punct (by decide) _ _ _)

/-! ## Types and signatures -/

/-- A size passes no comment marker. -/
theorem strays_drop_size {stop : Span} {tokens : List Token} {found : Taken (Except Fault Nat)}
    (h : size stop tokens = .ok found) : strays tokens = strays (tokens.drop found.width) := by
  unfold size at h
  split at h
  · rename_i hliteral
    cases h
    obtain ⟨text, span, rest, -, ⟨rfl, -, rfl⟩ | ⟨joint, sign, rfl, -, rfl⟩⟩ :=
      literal?_number hliteral
    · exact strays_literal _ _ _
    · exact (strays_punct (by decide) _ _ _).trans (strays_literal _ _ _)
  · cases h

/-- A type is a single token, and no comment marker stands in it. -/
theorem ty_eq_ok {stop : Span} {tokens : List Token} {found : Taken Ty}
    (h : ty stop tokens = .ok found) :
    ∃ token rest, tokens = token :: rest ∧ found.width = 1 ∧
      ∀ more, strays (token :: more) = strays more := by
  induction stop, tokens using ty.induct generalizing found with
  | case1 stop content span rest ih =>
    refine ⟨_, rest, rfl, ?_⟩
    rw [ty] at h
    obtain ⟨item, hitem, h⟩ := bind_eq_ok.mp h
    obtain ⟨_, hmark, h⟩ := bind_eq_ok.mp h
    obtain ⟨size, hsize, h⟩ := bind_eq_ok.mp h
    obtain ⟨_, hfinish, h⟩ := bind_eq_ok.mp h
    obtain ⟨n, -, h⟩ := bind_eq_ok.mp h
    cases h
    have hcontent : strays content = none := by
      obtain ⟨token, rest', rfl, hwidth, hstrays⟩ := ih hitem
      have hrest : (token :: rest').drop item.width = rest' := by
        rw [hwidth]
        rfl
      rw [hrest] at hmark hsize hfinish
      rw [hstrays, (steady_mark (by decide) _).strays_drop hmark, strays_drop_size hsize,
        List.drop_drop, finish_eq_ok_iff.mp hfinish, strays]
    exact ⟨rfl, fun more => by rw [strays_group, hcontent, Option.none_or]⟩
  | case2 stop text span rest found' hty =>
    rw [ty, hty] at h
    cases h
    exact ⟨_, rest, rfl, rfl, strays_ident text span⟩
  | case3 stop text span rest hty =>
    rw [ty, hty] at h
    cases h
  | case4 stop tokens hgroup hident =>
    rw [ty] at h
    · cases h
    · exact hgroup
    · exact hident

/-- Whether a type stands first depends on the first token alone. -/
theorem ty_cons (stop : Span) (token : Token) (rest more : List Token) :
    ty stop (token :: rest) = ty stop (token :: more) := by
  cases token with
  | ident text span =>
    rw [ty, ty]
    rfl
  | group delim content span =>
    cases delim with
    | bracket => rw [ty, ty]
    | paren | brace =>
      rw [ty, ty]
      · rfl
      all_goals simp
  | punct | literal =>
    rw [ty, ty]
    · rfl
    all_goals simp

/-- A type is read steadily. -/
theorem steady_ty (stop : Span) : Steady 0 Taken.width Plain (ty stop) := by
  refine Steady.of_taken fun tokens found h => ?_
  obtain ⟨token, rest, rfl, hwidth, hstrays⟩ := ty_eq_ok h
  refine ⟨[token], rest, none, rfl, hwidth, fun more => ?_, fun _ => rfl, hstrays⟩
  rw [List.singleton_append, ty_cons stop token more rest, h]

/-- A name is a single token. -/
theorem width_name (stop : Span) (tokens : List Token) :
    Gives (fun found => 1 = found.width) (name stop tokens) := by
  unfold name
  split
  · exact Gives.error
  · split
    · exact Gives.error
    · exact Gives.ok rfl
  · exact Gives.error

/-- A parameter is read steadily. -/
theorem steady_param (stop : Span) : Steady 0 Taken.width Plain (param stop) := by
  refine Steady.bind (steady_ty stop) fun ty => ?_
  exact (((steady_name stop).congr (width_name stop)).drop rfl).map (fun _ => rfl) fun _ h => h

/-- A parameter takes at least one token. -/
theorem width_param_pos {stop : Span} {tokens : List Token} {found : Taken Param}
    (h : param stop tokens = .ok found) : 0 < found.width := by
  obtain ⟨ty, hty, h⟩ := bind_eq_ok.mp h
  obtain ⟨name, -, h⟩ := bind_eq_ok.mp h
  cases h
  obtain ⟨-, -, -, hwidth, -⟩ := ty_eq_ok hty
  simp only [hwidth]
  omega

/-- No comment marker stands between parameters. -/
theorem strays_of_params {stop : Span} {tokens : List Token} {found : List Param}
    (h : params stop tokens = .ok found) : strays tokens = none := by
  induction tokens using params.induct generalizing found with
  | case1 => rw [strays]
  | case2 token rest ih =>
    rw [params] at h
    obtain ⟨first, hfirst, h⟩ := bind_eq_ok.mp h
    rw [(steady_param stop).strays_drop hfirst, List.drop_cons (width_param_pos hfirst)]
    split at h
    · rename_i hend
      rw [hend, strays]
    · obtain ⟨_, hcomma, h⟩ := bind_eq_ok.mp h
      obtain ⟨more, hmore, -⟩ := bind_eq_ok.mp h
      rw [(steady_mark (by decide) stop).strays_drop hcomma, List.drop_drop,
        Nat.sub_add_cancel (width_param_pos hfirst)]
      exact ih first hmore

/-- A signature is read steadily. -/
theorem steady_signature (stop : Span) : Steady 0 Taken.width Plain (signature stop) := by
  intro tokens found hstart h
  cases tokens with
  | nil =>
    obtain ⟨single, hsingle, -⟩ := bind_eq_ok.mp h
    have hpos := width_param_pos hsingle
    have hlength : single.width ≤ 0 := (steady_param stop [] single hstart hsingle).le_length
    omega
  | cons token rest =>
    by_cases hparen : ∃ content span, token = .group .paren content span
    · obtain ⟨content, span, rfl⟩ := hparen
      obtain ⟨params, hparams, hfound⟩ := bind_eq_ok.mp h
      cases hfound
      refine ⟨Nat.le_add_left _ _, fun more => h, none, fun _ => rfl, fun more => ?_⟩
      exact (strays_group _ _ _ _).trans (congrArg (Option.or · _) (strays_of_params hparams))
    · have hsingle : ∀ rest, signature stop (token :: rest) = do
          let single ← param stop (token :: rest)
          return ⟨[single.value], single.width⟩ := by
        intro rest
        rw [signature]
        rintro content span _ heq
        exact hparen ⟨content, span, (List.cons.inj heq).1⟩
      have hsteady : Steady 0 Taken.width Plain fun tokens => do
          let single ← param stop tokens
          return ⟨[single.value], single.width⟩ :=
        (steady_param stop).map (fun _ => rfl) fun _ h => h
      rw [hsingle] at h
      obtain ⟨hlength, hreads, hpasses⟩ := hsteady (token :: rest) found hstart h
      exact ⟨hlength, fun more => (hsingle _).trans (hreads more), hpasses⟩

/-- A signature takes at least one token. -/
theorem width_signature_pos {stop : Span} {tokens : List Token} {found : Taken (List Param)}
    (h : signature stop tokens = .ok found) : 0 < found.width := by
  unfold signature at h
  split at h
  · obtain ⟨params, -, h⟩ := bind_eq_ok.mp h
    cases h
    exact Nat.one_pos
  · obtain ⟨single, hsingle, h⟩ := bind_eq_ok.mp h
    cases h
    exact width_param_pos hsingle

/-- Two tokens decide whether a bare result stands first. -/
theorem startsBareResult_append (stop : Span) {tokens : List Token} (h : 2 ≤ tokens.length)
    (more : List Token) :
    (startsTy (tokens ++ more) && startsBareResult stop (tokens ++ more)) =
      (startsTy tokens && startsBareResult stop tokens) := by
  obtain ⟨first, second, rest, rfl⟩ : ∃ first second rest, tokens = first :: second :: rest := by
    match tokens, h with
    | first :: second :: rest, _ => exact ⟨first, second, rest, rfl⟩
  have hty := ty_cons stop first (second :: rest ++ more) (second :: rest)
  have hresult : startsBareResult stop (first :: second :: rest ++ more) =
      startsBareResult stop (first :: second :: rest) := by
    unfold startsBareResult
    rw [List.cons_append, hty]
    split
    · rename_i found hfound
      obtain ⟨-, -, -, hwidth, -⟩ := ty_eq_ok hfound
      rw [hwidth]
      cases second <;> rfl
    · rfl
  rw [hresult]
  cases first <;> rfl

/-- Take something and the equals sign after it, which is left out of the width. -/
def beforeEquals (reader : Span → List Token → Except Fault (Taken α)) (stop : Span)
    (tokens : List Token) : Except Fault (Taken α) := do
  let found ← reader stop tokens
  let _ ← mark '=' stop (tokens.drop found.width)
  return found

/-- Before an equals sign stands an arrow and a type, or nothing. -/
theorem beforeEquals_result (stop : Span) (tokens : List Token) :
    beforeEquals result stop tokens =
      if startsPair '-' '>' tokens then do
        let _ ← pair '-' '>' stop tokens
        let ty ← ty stop (tokens.drop 2)
        let _ ← mark '=' stop (tokens.drop (2 + ty.width))
        return ⟨some ty.value, ty.width + 2⟩
      else do
        let _ ← mark '=' stop tokens
        return ⟨none, 0⟩ := by
  unfold beforeEquals result
  split
  · rename_i hpair
    simp only [pair, if_pos hpair, bind_assoc, pure_bind, Nat.add_comm]
    rfl
  · rfl

/-- A result is read steadily together with the equals sign after it. -/
theorem steady_result (stop : Span) :
    Steady 0 (fun found => found.width + 1) Plain (beforeEquals result stop) := by
  change Steady 0 _ _ fun tokens => beforeEquals result stop tokens
  simp only [beforeEquals_result]
  refine Steady.ite (fun tokens found more h => ?_) ?_ ?_
  -- where no arrow is read, the equals sign stands first, and no arrow starts with it
  · cases hpair : startsPair '-' '>' tokens with
    | true =>
      obtain ⟨span, joint, span', rest, rfl⟩ := startsPair_iff.mp hpair
      exact hpair
    | false =>
      rw [hpair, if_neg Bool.false_ne_true] at h
      obtain ⟨_, hmark, -⟩ := bind_eq_ok.mp h
      obtain ⟨joint, span, rest, rfl⟩ := startsMark_iff.mp (of_ite_eq_ok hmark)
      rfl
  · refine Steady.bind (steady_arrow stop) fun _ => ?_
    refine Steady.bind ((steady_ty stop).drop rfl) fun ty => ?_
    refine Steady.bind ((steady_mark (by decide) stop).drop rfl) fun _ => ?_
    exact Steady.ok (by dsimp only; omega)
  · exact Steady.bind (steady_mark (by decide) stop) fun _ => Steady.ok rfl

/-- Before an equals sign stands a bare type, or parameters and what may follow them. -/
theorem beforeEquals_funcSignature (stop : Span) (tokens : List Token) :
    beforeEquals funcSignature stop tokens =
      if startsTy tokens && startsBareResult stop tokens then do
        let ty ← ty stop tokens
        let _ ← mark '=' stop (tokens.drop ty.width)
        return ⟨([], some ty.value), ty.width⟩
      else do
        let params ← signature stop tokens
        let result ← beforeEquals result stop (tokens.drop params.width)
        return ⟨(params.value, result.value), params.width + result.width⟩ := by
  unfold beforeEquals funcSignature
  split
  · simp only [bind_assoc, pure_bind]
  · simp only [bind_assoc, pure_bind, List.drop_drop]

/-- The signature of a function is read steadily together with the equals sign after it. -/
theorem steady_funcSignature (stop : Span) :
    Steady 0 (fun found => found.width + 1) Plain (beforeEquals funcSignature stop) := by
  change Steady 0 _ _ fun tokens => beforeEquals funcSignature stop tokens
  simp only [beforeEquals_funcSignature]
  refine Steady.ite (fun tokens found more h => startsBareResult_append stop ?_ more) ?_ ?_
  -- the equals sign is the second token at the earliest
  · split at h
    · obtain ⟨ty, hty, h⟩ := bind_eq_ok.mp h
      obtain ⟨_, hmark, -⟩ := bind_eq_ok.mp h
      obtain ⟨token, rest, rfl, hwidth, -⟩ := ty_eq_ok hty
      rw [hwidth, List.drop_one, List.tail_cons] at hmark
      obtain ⟨joint, span, rest, rfl⟩ := startsMark_iff.mp (of_ite_eq_ok hmark)
      simp
    · obtain ⟨params, hparams, h⟩ := bind_eq_ok.mp h
      obtain ⟨result, hresult, -⟩ := bind_eq_ok.mp h
      have hpos := width_signature_pos hparams
      have hlength := (steady_result stop _ result (Nat.zero_le _) hresult).le_length
      simp only [List.length_drop] at hlength
      omega
  · refine Steady.bind (steady_ty stop) fun ty => ?_
    refine Steady.bind ((steady_mark (by decide) stop).drop rfl) fun _ => ?_
    exact Steady.ok rfl
  · refine Steady.bind (steady_signature stop) fun params => ?_
    refine Steady.bind ((steady_result stop).drop rfl) fun result => ?_
    exact Steady.ok (Nat.add_assoc _ _ _)

end Grammar

end ShaderLang
