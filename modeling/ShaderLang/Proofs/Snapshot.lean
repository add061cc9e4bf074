import Mathlib.Data.List.Induction
import ShaderLang.Proofs.Recording

/-!
# Programs as snapshots

A declaration sees only the declarations before it.  What a name of a shader refers to at some point
of a text is defined here from the declarations before that point alone, without the tables that
recording builds up.  A program is then what its own declaration sees: the uniforms declared before
it, and the latest shaders of the two names that it gives.

Main results:

- Theorem `visibleAfter_eq_some_iff`: a name refers to what the last declaration that records a
  shader of that name records.
- Theorem `shader?_declareAll`: the shaders that recording finds are those that are visible.
- Theorem `programs_declareAll`: the recorded programs are the snapshots at their declarations, in
  the order of the text.
- Theorem `snapshots_of_ofTokens`: the functions and programs of a text, and what they refer to.
-/

namespace ShaderLang

/-! ## Visible shaders -/

namespace Declaration

/-- The shader that a declaration records under a name, if names refer to shaders as `visible` says.
A composition that fails records none. -/
def shader? (visible : String → Option Shader) (name : String) : Declaration → Option Shader
  | .shader stage ident inputs outputs body =>
    if ident.text = name then some ⟨stage, inputs, outputs, body⟩ else none
  | .composition stage ident _ _ down up =>
    if ident.text = name then do
      let downShader ← visible down.text
      let upShader ← visible up.text
      (Shader.compose stage downShader upShader).toOption
    else none
  | _ => none

/-- The shaders that a declaration refers to. -/
def references : Declaration → List Ident
  | .composition _ _ _ _ down up => [down, up]
  | .program _ vertex fragment => [vertex, fragment]
  | _ => []

/-- The uniform that a declaration declares, as a variable of the pipeline. -/
def uniformGlobal? : Declaration → Option Global
  | .uniform ty name => some ⟨.uniform, ty, name.text⟩
  | _ => none

end Declaration

/-- What names refer to after one more declaration. -/
def see (visible : String → Option Shader) (declaration : Declaration) (name : String) :
    Option Shader :=
  (declaration.shader? visible name).or (visible name)

/-- What names refer to after some declarations. -/
def visibleAfter (declarations : List Declaration) : String → Option Shader :=
  declarations.foldl see fun _ => none

/-- A shader is what the last of some declarations that records one under a name records there, each
declaration being built from the shaders that are visible before it. -/
def IsLatest (declarations : List Declaration) (name : String) (shader : Shader) : Prop :=
  ∃ before declaration after, declarations = before ++ declaration :: after ∧
    declaration.shader? (visibleAfter before) name = some shader ∧
    ∀ between next, between ++ [next] <+: after →
      next.shader? (visibleAfter (before ++ declaration :: between)) name = none

/-- One more declaration is seen first. -/
theorem visibleAfter_append_singleton (declarations : List Declaration) (last : Declaration)
    (name : String) :
    visibleAfter (declarations ++ [last]) name =
      (last.shader? (visibleAfter declarations) name).or (visibleAfter declarations name) := by
  rw [visibleAfter, List.foldl_append]
  rfl

/-- What the last declaration that records a shader of a name records is what one more declaration
records under that name, or else, if that one records none, what was so before. -/
theorem isLatest_append_singleton_iff {declarations : List Declaration} {last : Declaration}
    {name : String} {shader : Shader} :
    IsLatest (declarations ++ [last]) name shader ↔
      last.shader? (visibleAfter declarations) name = some shader ∨
        (last.shader? (visibleAfter declarations) name = none ∧
          IsLatest declarations name shader) := by
  constructor
  · rintro ⟨before, declaration, after, hsplit, hrecords, hlater⟩
    rcases List.eq_nil_or_concat' after with rfl | ⟨after, final, rfl⟩
    · obtain ⟨rfl, hlast⟩ := List.append_inj' hsplit rfl
      cases hlast
      exact Or.inl hrecords
    · rw [← List.cons_append, ← List.append_assoc] at hsplit
      obtain ⟨rfl, hlast⟩ := List.append_inj' hsplit rfl
      cases hlast
      refine Or.inr ⟨hlater after last List.prefix_rfl, before, declaration, after, rfl, hrecords,
        ?_⟩
      intro between next hbetween
      exact hlater between next (hbetween.trans (List.prefix_append _ _))
  · rintro (hrecords | ⟨hnone, before, declaration, after, rfl, hrecords, hlater⟩)
    · refine ⟨declarations, last, [], rfl, hrecords, ?_⟩
      intro between next hbetween
      simp at hbetween
    · refine ⟨before, declaration, after ++ [last], by simp, hrecords, ?_⟩
      intro between next hbetween
      rcases List.prefix_concat_iff.mp hbetween with hwhole | hearlier
      · obtain ⟨rfl, hnext⟩ := List.append_inj' hwhole rfl
        cases hnext
        exact hnone
      · exact hlater between next hearlier

/-- A name refers to what the last declaration that records a shader of that name records. -/
theorem visibleAfter_eq_some_iff {declarations : List Declaration} {name : String}
    {shader : Shader} :
    visibleAfter declarations name = some shader ↔ IsLatest declarations name shader := by
  induction declarations using List.reverseRecOn with
  | nil =>
    constructor
    · intro h
      cases h
    · rintro ⟨before, declaration, after, hsplit, -⟩
      simp at hsplit
  | append_singleton declarations last ih =>
    rw [visibleAfter_append_singleton, isLatest_append_singleton_iff, Option.or_eq_some_iff, ih]

/-! ## Recorded shaders -/

/-- A recorded shader is found under its name and hides no shader of another name. -/
theorem Registry.shader?_addShader (r : Registry) (name other : String) (shader : Shader) :
    (r.addShader name shader).shader? other =
      if name = other then some shader else r.shader? other := by
  by_cases h : name = other
  · rw [if_pos h, ← h]
    exact shader?_addShader_self r name shader
  · rw [if_neg h]
    exact shader?_addShader_of_ne r shader h

namespace Progress

/-- A shader is found exactly if it is recorded under its name. -/
theorem shader_eq_ok_iff {p : Progress} {name : Ident} {shader : Shader} :
    p.shader name = .ok shader ↔ p.registry.shader? name.text = some shader := by
  unfold Progress.shader
  cases p.registry.shader? name.text with
  | none => simp
  | some found => simp

/-- A declaration changes what names refer to as `see` says. -/
theorem shader?_declare {p p' : Progress} {declaration : Declaration}
    (h : p.declare declaration = .ok p') :
    p'.registry.shader? = see p.registry.shader? declaration := by
  funext other
  cases declaration with
  | uniform | function =>
    cases h
    rfl
  | shader stage name inputs outputs body =>
    cases h
    refine (Registry.shader?_addShader _ _ _ _).trans ?_
    by_cases hname : name.text = other
    · simp [see, Declaration.shader?, hname]
    · simp [see, Declaration.shader?, hname, lint]
  | composition stage name inputs outputs down up =>
    obtain ⟨downShader, upShader, hdown, hup, rfl⟩ := declare_composition_eq_ok h
    rw [shader_eq_ok_iff] at hdown hup
    rcases addComposite_cases p stage name inputs outputs down up downShader upShader with
      ⟨shader, hcompose, hregistry, -⟩ | ⟨mismatch, hcompose, hregistry, -⟩
    · rw [hregistry, Registry.shader?_addShader]
      by_cases hname : name.text = other
      · simp [see, Declaration.shader?, hname, hdown, hup, hcompose, Except.toOption]
      · simp [see, Declaration.shader?, hname]
    · rw [hregistry]
      by_cases hname : name.text = other
      · simp [see, Declaration.shader?, hname, hdown, hup, hcompose, Except.toOption]
      · simp [see, Declaration.shader?, hname]
  | program name vertexName fragmentName =>
    obtain ⟨vertex, fragment, -, -, rfl⟩ := declare_program_eq_ok h
    simp [addProgram, Registry.addProgram, Registry.shader?, registry_checkStage, see,
      Declaration.shader?]

/-- The shaders that recording finds are those that are visible. -/
theorem shader?_declareAll {p q : Progress} {declarations : List Declaration}
    (h : p.declareAll declarations = (q, none)) :
    q.registry.shader? = declarations.foldl see p.registry.shader? := by
  induction declarations generalizing p with
  | nil =>
    cases h
    rfl
  | cons declaration rest ih =>
    obtain ⟨p', hdeclare, hrest⟩ := declareAll_cons_eq h
    rw [ih hrest, shader?_declare hdeclare, List.foldl_cons]

variable {diagnostics : List Diagnostic} {declarations : List Declaration} {p : Progress}

/-- A shader is found after some declarations exactly if it is what the last of them that records a
shader of its name records. -/
theorem shader_eq_ok_iff_isLatest (h : (start diagnostics).declareAll declarations = (p, none))
    {name : Ident} {shader : Shader} :
    p.shader name = .ok shader ↔ IsLatest declarations name.text shader := by
  rw [shader_eq_ok_iff, shader?_declareAll h, ← visibleAfter_eq_some_iff]
  rfl

/-- The shaders that a recorded declaration refers to are found. -/
theorem exists_of_mem_references {p p' : Progress} {declaration : Declaration}
    (h : p.declare declaration = .ok p') :
    ∀ name ∈ declaration.references, ∃ shader, p.shader name = .ok shader := by
  cases declaration with
  | uniform | function | shader => simp [Declaration.references]
  | composition stage name inputs outputs down up =>
    obtain ⟨downShader, upShader, hdown, hup, -⟩ := declare_composition_eq_ok h
    simp [Declaration.references, hdown, hup]
  | program name vertexName fragmentName =>
    obtain ⟨vertex, fragment, hvertex, hfragment, -⟩ := declare_program_eq_ok h
    simp [Declaration.references, hvertex, hfragment]

end Progress

/-! ## Recorded programs -/

/-- The declaration of a program, with the declarations before it. -/
structure ProgramSite where
  before : List Declaration
  name : Ident
  vertex : Ident
  fragment : Ident

/-- The declarations of programs among some declarations that follow others, in their order. -/
def programSites (before : List Declaration) : List Declaration → List ProgramSite
  | [] => []
  | .program name vertex fragment :: rest =>
    ⟨before, name, vertex, fragment⟩ ::
      programSites (before ++ [.program name vertex fragment]) rest
  | declaration :: rest => programSites (before ++ [declaration]) rest

/-- A named program is a snapshot at its declaration. -/
structure ProgramSite.IsSnapshot (site : ProgramSite) (entry : String × Program) : Prop where
  name : entry.1 = site.name.text
  /-- It has the uniforms that are declared before it. -/
  uniforms : entry.2.uniforms = site.before.filterMap Declaration.uniformGlobal?
  /-- Its attributes are the inputs of its vertex shader, with the qualifier of attributes. -/
  attributes : entry.2.attributes =
    entry.2.vertex.inputs.map fun input => { input with qualifier := .attrib }
  vertex : IsLatest site.before site.vertex.text entry.2.vertex
  fragment : IsLatest site.before site.fragment.text entry.2.fragment

namespace Progress

variable {diagnostics : List Diagnostic} {p : Progress}

/-- The recorded uniforms are those of the declarations, in their order. -/
theorem uniformGlobals_declareAll {declarations : List Declaration}
    (h : (start diagnostics).declareAll declarations = (p, none)) :
    p.registry.uniformGlobals = declarations.filterMap Declaration.uniformGlobal? := by
  have huniforms : p.registry.uniforms = uniformsIn declarations := (registry_declareAll h).1
  rw [Registry.uniformGlobals, huniforms, uniformsIn, List.filterMap_filterMap]
  congr 1
  funext declaration
  cases declaration <;> rfl

/-- The recorded programs are the snapshots at their declarations, in the order of the text. -/
theorem programs_declareAll {before declarations : List Declaration} {q : Progress}
    (hbefore : (start diagnostics).declareAll before = (p, none))
    (h : p.declareAll declarations = (q, none)) :
    ∃ added, q.registry.programs = p.registry.programs ++ added ∧
      List.Forall₂ ProgramSite.IsSnapshot (programSites before declarations) added := by
  induction declarations generalizing before p with
  | nil =>
    cases h
    exact ⟨[], (List.append_nil _).symm, .nil⟩
  | cons declaration rest ih =>
    obtain ⟨p', hdeclare, hrest⟩ := declareAll_cons_eq h
    have hextended : (start diagnostics).declareAll (before ++ [declaration]) = (p', none) := by
      rw [declareAll_append hbefore, declareAll, hdeclare]
      rfl
    obtain ⟨added, hprograms, hsnapshots⟩ := ih hextended hrest
    rcases programs_declare hdeclare with
      ⟨name, vertexName, fragmentName, vertex, fragment, rfl, hvertex, hfragment, hnew⟩ |
        ⟨hother, hsame⟩
    · refine ⟨(name.text, p.programOf vertex fragment) :: added, ?_, .cons ?_ hsnapshots⟩
      · rw [hprograms, hnew, List.append_assoc, List.singleton_append]
      · exact ⟨rfl, uniformGlobals_declareAll hbefore, rfl,
          (shader_eq_ok_iff_isLatest hbefore).mp hvertex,
          (shader_eq_ok_iff_isLatest hbefore).mp hfragment⟩
    · refine ⟨added, by rw [hprograms, hsame], ?_⟩
      rw [programSites]
      · exact hsnapshots
      · exact hother

end Progress

/-! ## Texts -/

/-- A text that declares `v` anew as a composite of itself, which takes two inputs, then tries so
once more, which fails. -/
def redeclaring : String :=
  "uniform Int s vert v:(Int x)->()=\x7b\x7d vert w:(Int q,Int k)->(Int x)=\x7b\x7d " ++
  "vert v:()->()=v.w vert v:()->()=v.w p:Prog=mkProg v v uniform Int t"

/-- If the declarations of a text can all be read and recorded, its functions are those that are
declared, and its programs are the snapshots at the declarations of programs, both in the order of
the text.  Every shader that a composition or a program refers to is declared before it. -/
theorem snapshots_of_ofTokens {diagnostics : List Diagnostic} {tokens : List Token} {p : Progress}
    (h : Progress.ofTokens diagnostics tokens = (p, none)) :
    ∃ declarations, Grammar.declarations tokens = (declarations, none) ∧
      p.registry.toModule.functions = functionsIn declarations ∧
      List.Forall₂ ProgramSite.IsSnapshot (programSites [] declarations)
        p.registry.toModule.programs ∧
      ∀ before declaration after, declarations = before ++ declaration :: after →
        ∀ name ∈ declaration.references, ∃ shader, IsLatest before name.text shader := by
  obtain ⟨declarations, hread, hall⟩ := Progress.advance_eq_none_iff.mp h
  refine ⟨declarations, hread, (Progress.registry_declareAll hall).2, ?_, ?_⟩
  · have hstart : (Progress.start diagnostics).declareAll [] = (.start diagnostics, none) := rfl
    obtain ⟨added, hprograms, hsnapshots⟩ := Progress.programs_declareAll hstart hall
    replace hprograms : p.registry.programs = added := hprograms
    rw [Registry.toModule, hprograms]
    exact hsnapshots
  · rintro before declaration after rfl name hname
    obtain ⟨q, q', hbefore, hdeclare, -⟩ := Progress.declareAll_append_cons hall
    obtain ⟨shader, hshader⟩ := Progress.exists_of_mem_references hdeclare name hname
    exact ⟨shader, (Progress.shader_eq_ok_iff_isLatest hbefore).mp hshader⟩

/-- The text is recorded with one program, of one uniform, with the two inputs as attributes and the
three statements of a composite. -/
def recordsRedeclaring : Bool :=
  match tokenize redeclaring with
  | .error _ => false
  | .ok tokens =>
    match Progress.ofTokens [] tokens with
    | (_, some _) => false
    | (p, none) =>
      match p.registry.programs with
      | [entry] =>
        entry.2.uniforms.length == 1 &&
          (entry.2.attributes == [⟨.attrib, .int, "q"⟩, ⟨.attrib, .int, "k"⟩] &&
            (Block.stmts entry.2.vertex.body).length == 3)
      | _ => false

/-- The program of `redeclaring` is a snapshot at its declaration: it has one of the two uniforms,
the inputs of the composite are its attributes, and it runs the composite. -/
theorem snapshots_redeclaring :
    ∃ tokens p site entry, tokenize redeclaring = .ok tokens ∧
      Progress.ofTokens [] tokens = (p, none) ∧ p.registry.toModule.programs = [entry] ∧
      ProgramSite.IsSnapshot site entry ∧ entry.2.uniforms.length = 1 ∧
      entry.2.attributes = [⟨.attrib, .int, "q"⟩, ⟨.attrib, .int, "k"⟩] ∧
      (Block.stmts entry.2.vertex.body).length = 3 := by
  have hevaluated : recordsRedeclaring = true := by decide +kernel
  unfold recordsRedeclaring at hevaluated
  split at hevaluated
  · cases hevaluated
  rename_i tokens htokens
  split at hevaluated
  · cases hevaluated
  rename_i p hrecorded
  split at hevaluated
  · rename_i entry hprograms
    obtain ⟨declarations, -, -, hsnapshots, -⟩ := snapshots_of_ofTokens hrecorded
    rw [Registry.toModule, hprograms] at hsnapshots
    obtain ⟨site, _, hsite, -, -⟩ := List.forall₂_cons_right_iff.mp hsnapshots
    simp only [Bool.and_eq_true, beq_iff_eq] at hevaluated
    exact ⟨tokens, p, site, entry, htokens, hrecorded, hprograms, hsite, hevaluated⟩
  · cases hevaluated

end ShaderLang
