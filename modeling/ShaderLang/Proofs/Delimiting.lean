import ShaderLang.Proofs.Steadiness

/-!
# Declarations end by themselves

Every declaration is read steadily, so it is read in the same way whatever follows it.  If all
declarations of some tokens can be read, they are also the first declarations of any tokens that
start with these.

Main results:

- Theorem `steady_declaration`: a declaration is read steadily.
- Theorem `declarations_steady`: all declarations of some tokens stay the same before any others.
- Theorem `strays_append`: so do their strays.
-/

namespace ShaderLang

namespace Grammar

/-! ## Declarations -/

/-- A body is read steadily, with the strays in it. -/
theorem steady_braced (stop : Span) : Steady 0 (fun _ => 1) (fun _ => False) (braced stop) := by
  refine Steady.of_taken fun tokens found h => ?_
  unfold braced at h
  split at h
  · rename_i content span rest
    refine ⟨[.group .brace content span], rest, strays content, rfl, rfl, fun more => ?_,
      False.elim, strays_group .brace content span⟩
    rw [← h, List.singleton_append, braced]
  · cases h

/-- A declaration that spells out no body. -/
def Bodiless : Declaration → Prop
  | .function .. => False
  | .shader .. => False
  | _ => True

/-- A reader of declarations that is steady and passes strays only in bodies. -/
def SteadyDeclaration (reader : List Token → Except Fault (Taken Declaration)) : Prop :=
  Steady 0 Taken.width (fun found => Bodiless found.value) reader

/-- A function is read steadily. -/
theorem steady_function (name : Ident) (stop : Span) :
    SteadyDeclaration (function name stop) := by
  have hfunction : function name stop = fun tokens => do
      let signature ← beforeEquals funcSignature stop tokens
      let body ← braced stop (tokens.drop (signature.width + 1))
      return ⟨.function name signature.value.1 signature.value.2 body, signature.width + 2⟩ := by
    funext tokens
    simp only [function, beforeEquals, bind_assoc, pure_bind, List.drop_drop]
  rw [hfunction]
  refine Steady.bind (steady_funcSignature stop) fun signature => ?_
  exact ((steady_braced stop).drop rfl).map (fun _ => rfl) fun _ h => h

/-- A program is read steadily. -/
theorem steady_program (name : Ident) (stop : Span) :
    SteadyDeclaration (program name stop) := by
  refine Steady.bind (steady_word "Prog" stop) fun _ => ?_
  refine Steady.bind ((steady_mark (by decide) stop).drop rfl) fun _ => ?_
  refine Steady.bind ((steady_word "mkProg" stop).drop rfl) fun _ => ?_
  refine Steady.bind ((steady_name stop).drop rfl) fun vertex => ?_
  exact ((steady_name stop).drop rfl).map (fun _ => rfl) fun _ _ => trivial

/-- What follows the signature of a shader is read steadily. -/
theorem steady_shaderBody (stage : Stage) (name : Ident) (inputs outputs : List Global)
    (stop : Span) : SteadyDeclaration (shaderBody stage name inputs outputs stop) := by
  refine Steady.ite (fun tokens found more h => ?_) ?_ ?_
  · cases tokens with
    | nil => cases h
    | cons token rest => cases token <;> rfl
  · exact (steady_braced stop).map (fun _ => rfl) fun _ h => h
  · refine Steady.bind (steady_name stop) fun down => ?_
    refine Steady.bind ((steady_mark (by decide) stop).drop rfl) fun _ => ?_
    exact ((steady_name stop).drop rfl).map (fun _ => rfl) fun _ _ => trivial

/-- A shader is read steadily. -/
theorem steady_shader (stage : Stage) (stop : Span) : SteadyDeclaration (shader stage stop) := by
  change Steady 0 _ _ fun tokens => shader stage stop tokens
  simp only [shader, List.drop_drop]
  refine Steady.bind (steady_declName stop) fun name => ?_
  refine Steady.bind ((steady_mark (by decide) stop).drop rfl) fun _ => ?_
  refine Steady.bind ((steady_signature stop).drop rfl) fun inputs => ?_
  refine Steady.bind ((steady_arrow stop).drop rfl) fun _ => ?_
  refine Steady.bind ((steady_signature stop).drop rfl) fun outputs => ?_
  refine Steady.bind ((steady_mark (by decide) stop).drop rfl) fun _ => ?_
  refine ((steady_shaderBody stage name.value _ _ stop).drop rfl).map (fun body => ?_) fun _ h => h
  dsimp only
  omega

/-- The first token decides which word stands first. -/
theorem startsWord_append (text : String) {tokens : List Token} (h : tokens ≠ [])
    (more : List Token) : startsWord text (tokens ++ more) = startsWord text tokens := by
  cases tokens with
  | nil => exact absurd rfl h
  | cons token rest => cases token <;> rfl

/-- A declaration starts with a word for its kind, or with its name. -/
theorem declaration_eq (stop : Span) (tokens : List Token) :
    declaration stop tokens =
      if startsWord "uniform" tokens then do
        let _ ← word "uniform" stop tokens
        let ty ← ty stop (tokens.drop 1)
        let name ← declName stop (tokens.drop (1 + ty.width))
        return ⟨.uniform ty.value name.value, ty.width + 2⟩
      else if startsWord "vert" tokens then do
        let _ ← word "vert" stop tokens
        let found ← shader .vertex stop (tokens.drop 1)
        return ⟨found.value, found.width + 1⟩
      else if startsWord "frag" tokens then do
        let _ ← word "frag" stop tokens
        let found ← shader .fragment stop (tokens.drop 1)
        return ⟨found.value, found.width + 1⟩
      else
        declName stop tokens >>= fun name => mark ':' stop (tokens.drop 1) >>= fun _ =>
          (if startsWord "Prog" (tokens.drop 2) then program name.value stop (tokens.drop 2)
            else function name.value stop (tokens.drop 2)) >>= fun found =>
            pure ⟨found.value, found.width + 2⟩ := by
  unfold declaration
  split
  · simp [word, startsWord, Nat.add_comm]
    rfl
  · simp [word, startsWord]
    rfl
  · simp [word, startsWord]
    rfl
  · rename_i huniform hvert hfrag
    have hword : ∀ text, (∀ span rest, tokens = .ident text span :: rest → False) →
        ¬ startsWord text tokens = true := by
      intro text hnot hstarts
      obtain ⟨span, rest, heq⟩ := startsWord_iff.mp hstarts
      exact hnot span rest heq
    rw [if_neg (hword _ huniform), if_neg (hword _ hvert), if_neg (hword _ hfrag)]
    refine bind_congr fun name => bind_congr fun _ => ?_
    simp only
    split <;> rfl

/-- A declaration starts with an identifier. -/
theorem exists_ident_of_declaration {stop : Span} {tokens : List Token} {found : Taken Declaration}
    (h : declaration stop tokens = .ok found) :
    ∃ text span rest, tokens = .ident text span :: rest := by
  cases tokens with
  | nil => cases h
  | cons token rest =>
    cases token with
    | ident text span => exact ⟨text, span, rest, rfl⟩
    | punct | literal | group => cases h

/-- A choice by the first word is steady if something has to stand there. -/
theorem SteadyDeclaration.ite {yes no : List Token → Except Fault (Taken Declaration)}
    (text : String) (hyes : SteadyDeclaration yes) (hno : SteadyDeclaration no)
    (hempty : ∀ found, no [] ≠ .ok found) :
    SteadyDeclaration fun tokens => if startsWord text tokens then yes tokens else no tokens := by
  refine Steady.ite (fun tokens found more h => startsWord_append text ?_ more) hyes hno
  rintro rfl
  exact hempty found h

/-- A shader is read steadily after the word for its stage. -/
theorem steady_stage (text : String) (stage : Stage) (stop : Span) :
    SteadyDeclaration fun tokens => do
      let _ ← word text stop tokens
      let found ← shader stage stop (tokens.drop 1)
      return ⟨found.value, found.width + 1⟩ := by
  refine Steady.bind (steady_word text stop) fun _ => ?_
  exact ((steady_shader stage stop).drop rfl).map (fun _ => Nat.add_comm _ _) fun _ h => h

/-- A program or a function is read steadily after its name. -/
theorem steady_named (stop : Span) :
    SteadyDeclaration fun tokens =>
      declName stop tokens >>= fun name => mark ':' stop (tokens.drop 1) >>= fun _ =>
        (if startsWord "Prog" (tokens.drop 2) then program name.value stop (tokens.drop 2)
          else function name.value stop (tokens.drop 2)) >>= fun found =>
          pure ⟨found.value, found.width + 2⟩ := by
  refine Steady.bind (steady_declName stop) fun name => ?_
  refine Steady.bind ((steady_mark (by decide) stop).drop rfl) fun _ => ?_
  have hchoice : SteadyDeclaration fun tokens =>
      if startsWord "Prog" tokens then program name.value stop tokens
      else function name.value stop tokens := by
    refine SteadyDeclaration.ite "Prog" (steady_program _ _) (steady_function _ _) ?_
    intro found h
    obtain ⟨signature, -, h⟩ := bind_eq_ok.mp h
    obtain ⟨_, hmark, -⟩ := bind_eq_ok.mp h
    rw [List.drop_nil] at hmark
    cases hmark
  exact (Steady.drop hchoice rfl).map (fun _ => Nat.add_comm _ _) fun _ h => h

/-- A declaration is read steadily. -/
theorem steady_declaration (stop : Span) : SteadyDeclaration (declaration stop) := by
  change SteadyDeclaration fun tokens => declaration stop tokens
  simp only [declaration_eq]
  refine .ite "uniform" ?_ (.ite "vert" (steady_stage _ _ _)
    (.ite "frag" (steady_stage _ _ _) (steady_named stop) ?_) ?_) ?_
  · refine Steady.bind (steady_word "uniform" stop) fun _ => ?_
    refine Steady.bind ((steady_ty stop).drop rfl) fun ty => ?_
    refine ((steady_declName stop).drop rfl).map (fun name => ?_) fun _ _ => trivial
    dsimp only
    omega
  -- without a token there is no name
  all_goals
    rintro found ⟨⟩

/-- A declaration takes at least one token. -/
theorem width_declaration_pos (stop : Span) (tokens : List Token) :
    Gives (fun found => 0 < found.width) (declaration stop tokens) := by
  unfold declaration
  split
  · exact Gives.skip fun _ => Gives.skip fun _ => Gives.ok (Nat.succ_pos _)
  · exact Gives.skip fun _ => Gives.ok (Nat.succ_pos _)
  · exact Gives.skip fun _ => Gives.ok (Nat.succ_pos _)
  · refine Gives.skip fun _ => Gives.skip fun _ => ?_
    simp only
    split
    · exact Gives.skip fun _ => Gives.ok (Nat.succ_pos _)
    · exact Gives.skip fun _ => Gives.ok (Nat.succ_pos _)

/-! ## All declarations -/

/-- A comment marker stands first exactly if the first tokens are a number sign and brackets. -/
theorem startsComment_iff {tokens : List Token} :
    startsComment tokens = true ↔ ∃ joint span content place rest,
      tokens = .punct '#' joint span :: .group .bracket content place :: rest := by
  constructor
  · intro h
    unfold startsComment at h
    split at h
    · exact ⟨_, _, _, _, _, rfl⟩
    · cases h
  · rintro ⟨joint, span, content, place, rest, rfl⟩
    rfl

/-- A semicolon between declarations is passed over. -/
theorem declarations_semicolon (joint : Bool) (span : Span) (rest : List Token) :
    declarations (.punct ';' joint span :: rest) = declarations rest := by
  simp [declarations, startsMark]

/-- A comment marker between declarations is passed over. -/
theorem declarations_comment {joint : Bool} {span : Span} {content : List Token} {place : Span}
    {text : Expr} (h : commentText place.last content = .ok text) (rest : List Token) :
    declarations (.punct '#' joint span :: .group .bracket content place :: rest) =
      declarations rest := by
  have hcomment : comment .origin (.punct '#' joint span :: .group .bracket content place :: rest) =
      .ok ⟨text, 2⟩ :=
    bind_eq_ok.mpr ⟨_, rfl, bind_eq_ok.mpr ⟨text, h, rfl⟩⟩
  simp [declarations, startsMark, startsComment, hcomment]

/-- A declaration stands before all declarations after it. -/
theorem declarations_declaration {tokens : List Token} {first : Taken Declaration}
    (h : declaration .origin tokens = .ok first) :
    declarations tokens =
      (first.value :: (declarations (tokens.drop first.width)).1,
        (declarations (tokens.drop first.width)).2) := by
  obtain ⟨text, span, rest, rfl⟩ := exists_ident_of_declaration h
  obtain ⟨n, hn⟩ := Nat.exists_eq_add_one.mpr (width_declaration_pos _ _ first h)
  simp [declarations, startsMark, startsComment, h, hn]

/-- A stray in a comment marker comes before those that follow the marker. -/
theorem Passes.comment {hidden : Option Span} {rest after : List Token}
    (h : Passes hidden rest after) (joint : Bool) (span : Span) (content : List Token)
    (place : Span) :
    ∃ hidden, Passes hidden (.punct '#' joint span :: .group .bracket content place :: rest)
      after := by
  cases hcontent : content.drop 3 with
  | nil =>
    refine ⟨hidden, fun more => ?_⟩
    rw [List.cons_append, List.cons_append, strays, hcontent]
    exact h more
  | cons token _ =>
    refine ⟨some token.span, fun more => ?_⟩
    rw [List.cons_append, List.cons_append, strays, hcontent]
    rfl

/-- If the declarations of some tokens can all be read, they are read in the same way before any
other tokens, whose declarations follow them; and no comment marker starts in the first tokens and
ends in the others. -/
theorem declarations_steady {tokens : List Token} {found : List Declaration}
    (h : declarations tokens = (found, none)) :
    (∀ more, declarations (tokens ++ more) =
      (found ++ (declarations more).1, (declarations more).2)) ∧
      ∃ hidden, Passes hidden tokens [] := by
  induction tokens using declarations.induct generalizing found with
  | case1 =>
    rw [declarations] at h
    cases h
    exact ⟨fun more => rfl, none, Passes.refl []⟩
  | case2 token rest hmark ih =>
    obtain ⟨joint, span, _, heq⟩ := startsMark_iff.mp hmark
    cases heq
    rw [declarations_semicolon] at h
    obtain ⟨hreads, hidden, hpasses⟩ := ih h
    refine ⟨fun more => ?_, hidden, fun more => ?_⟩
    · rw [List.cons_append, declarations_semicolon, hreads]
    · rw [List.cons_append, strays_punct (by decide)]
      exact hpasses more
  | case3 token rest hmark hcomment found' hfound ih =>
    obtain ⟨joint, span, content, place, rest, heq⟩ := startsComment_iff.mp hcomment
    cases heq
    obtain ⟨_, -, htext⟩ := bind_eq_ok.mp hfound
    obtain ⟨text, htext, -⟩ := bind_eq_ok.mp htext
    rw [declarations_comment htext] at h
    obtain ⟨hreads, hidden, hpasses⟩ := ih h
    refine ⟨fun more => ?_, hpasses.comment joint span content place⟩
    rw [List.cons_append, List.cons_append, declarations_comment htext]
    exact hreads more
  | case4 token rest hmark hcomment fault hfault =>
    rw [declarations, if_neg hmark, if_pos hcomment, hfault] at h
    cases h
  | case5 token rest hmark hcomment first hfirst later fault hmore ih =>
    have hrest : (token :: rest).drop first.width = rest.drop (first.width - 1) :=
      List.drop_cons (width_declaration_pos _ _ first hfirst)
    rw [declarations_declaration hfirst, hrest, hmore] at h
    cases h
    obtain ⟨hreads, hidden, hpasses⟩ := ih hmore
    obtain ⟨hlength, hfirst', hidden', -, hpasses'⟩ :=
      steady_declaration .origin (token :: rest) first (Nat.zero_le _) hfirst
    rw [hrest] at hpasses'
    refine ⟨fun more => ?_, _, hpasses'.trans hpasses⟩
    rw [declarations_declaration (hfirst' more), List.drop_append_of_le_length hlength, hrest,
      hreads more, List.cons_append]
  | case6 token rest hmark hcomment fault hfault =>
    rw [declarations, if_neg hmark, if_neg hcomment, hfault] at h
    cases h

/-- The strays of tokens whose declarations can all be read come before those of other tokens. -/
theorem strays_append {tokens : List Token} {found : List Declaration}
    (h : declarations tokens = (found, none)) (more : List Token) :
    strays (tokens ++ more) = (strays tokens).or (strays more) := by
  obtain ⟨-, hidden, hpasses⟩ := declarations_steady h
  have hself : strays tokens = hidden := by
    simpa [strays] using hpasses []
  rw [hpasses more, hself, List.nil_append]

/-- A declaration without a body that takes all tokens is their only declaration, and no comment
marker in it holds a stray. -/
theorem declarations_of_declaration {tokens : List Token} {declaration : Declaration}
    (h : Grammar.declaration .origin tokens = .ok ⟨declaration, tokens.length⟩)
    (hbody : Bodiless declaration) :
    declarations tokens = ([declaration], none) ∧ strays tokens = none := by
  obtain ⟨-, -, hidden, hplain, hpasses⟩ := steady_declaration .origin tokens _ (Nat.zero_le _) h
  obtain rfl := hplain hbody
  constructor
  · rw [declarations_declaration h, List.drop_length, declarations]
  · simpa [strays] using hpasses []

end Grammar

end ShaderLang
