import ShaderLang.Loading
import ShaderLang.Proofs.Composite
import ShaderLang.Proofs.Outcome

/-!
# Recording of declarations

What recording a declaration can change, and how to argue about all declarations of a source: what
each declaration preserves holds after all of them.

Main results:

- Theorem `declareAll_induct`: what every declaration preserves holds after all declarations.
- Theorem `addComposite_cases`: what a composition records and reports.
- Theorem `declareAll_append_cons`: the declarations before a declaration are recorded before it.
- Theorem `prefix_declareAll`: what is reported stays reported.
- Theorem `registry_declareAll`: the recorded uniforms and functions are those of the declarations,
  in their order.
- Theorem `mem_shaders_declare`: a recorded shader is spelled out or composed of recorded ones.
- Theorem `mem_programs_declareAll`: a recorded program is what its declaration finds recorded.
- Theorem `Loaded.ofTokens_eq`: tokens are loaded by reading and recording their declarations, as
  `Progress.advance` does, and looking for comment markers that hold more than their text.
- Theorem `declareAll_of_load`: a source that loads has declarations that can all be recorded,
  and its module and diagnostics are what is recorded.
-/

namespace ShaderLang

namespace Progress

/-! ## Single declarations -/

/-- A shader that is found is a recorded one. -/
theorem mem_shaders_of_shader_eq_ok {p : Progress} {name : Ident} {shader : Shader}
    (h : p.shader name = .ok shader) : ∃ entry ∈ p.registry.shaders, entry.2 = shader := by
  unfold Progress.shader at h
  split at h
  · rename_i found hfound
    cases h
    obtain ⟨entry, hentry, hsecond⟩ := Option.map_eq_some_iff.mp hfound
    exact ⟨entry, List.mem_reverse.mp (List.mem_of_find?_eq_some hentry), hsecond⟩
  · cases h

/-- A composition that can be recorded names two recorded shaders. -/
theorem declare_composition_eq_ok {p p' : Progress} {stage : Stage} {name down up : Ident}
    {inputs outputs : List Global}
    (h : p.declare (.composition stage name inputs outputs down up) = .ok p') :
    ∃ downShader upShader, p.shader down = .ok downShader ∧ p.shader up = .ok upShader ∧
      p' = p.addComposite stage name inputs outputs down up downShader upShader := by
  obtain ⟨downShader, hdown, hrest⟩ := bind_eq_ok.mp h
  obtain ⟨upShader, hup, hresult⟩ := bind_eq_ok.mp hrest
  cases hresult
  exact ⟨downShader, upShader, hdown, hup, rfl⟩

/-- A program that can be recorded names two recorded shaders. -/
theorem declare_program_eq_ok {p p' : Progress} {name vertexName fragmentName : Ident}
    (h : p.declare (.program name vertexName fragmentName) = .ok p') :
    ∃ vertex fragment, p.shader vertexName = .ok vertex ∧ p.shader fragmentName = .ok fragment ∧
      p' = p.addProgram name vertexName fragmentName vertex fragment := by
  obtain ⟨vertex, hvertex, hrest⟩ := bind_eq_ok.mp h
  obtain ⟨fragment, hfragment, hresult⟩ := bind_eq_ok.mp hrest
  cases hresult
  exact ⟨vertex, fragment, hvertex, hfragment, rfl⟩

/-- A composition records the composite, or reports that there is none. -/
theorem addComposite_cases (p : Progress) (stage : Stage) (name : Ident)
    (inputs outputs : List Global) (down up : Ident) (downShader upShader : Shader) :
    let p' := p.addComposite stage name inputs outputs down up downShader upShader
    (∃ shader, Shader.compose stage downShader upShader = .ok shader ∧
      p'.registry = p.registry.addShader name.text shader ∧ p'.diagnostics = p.diagnostics) ∨
    ∃ mismatch, Shader.compose stage downShader upShader = .error mismatch ∧
      p'.registry = p.registry ∧
      p'.diagnostics = p.diagnostics ++ [.cannotCompose name down up mismatch] := by
  unfold addComposite
  cases hcompose : Shader.compose stage downShader upShader with
  | ok shader =>
    refine Or.inl ⟨shader, rfl, ?_, ?_⟩
    · simp only
      split <;> rfl
    · simp only
      split <;> rfl
  | error mismatch => exact Or.inr ⟨mismatch, rfl, rfl, rfl⟩

/-- Checking a stage records nothing. -/
theorem registry_checkStage (p : Progress) (program name : Ident) (shader : Shader)
    (expected : Stage) : (p.checkStage program name shader expected).registry = p.registry := by
  unfold checkStage
  split <;> rfl

/-- Checking a stage only adds to what is reported. -/
theorem prefix_checkStage (p : Progress) (program name : Ident) (shader : Shader)
    (expected : Stage) :
    p.diagnostics <+: (p.checkStage program name shader expected).diagnostics := by
  unfold checkStage
  split
  · exact List.prefix_rfl
  · exact List.prefix_append _ _

/-! ## All declarations -/

/-- What every declaration preserves holds after all declarations. -/
theorem declareAll_induct (inv : Progress → Prop) {declarations : List Declaration}
    (hstep : ∀ p p' declaration, declaration ∈ declarations → inv p →
      p.declare declaration = .ok p' → inv p') {p : Progress} (hstart : inv p) :
    inv (p.declareAll declarations).1 := by
  induction declarations generalizing p with
  | nil => exact hstart
  | cons declaration rest ih =>
    rw [declareAll]
    split
    · rename_i p' hdeclare
      refine ih (fun p p' d hd => hstep p p' d (List.mem_cons_of_mem _ hd)) ?_
      exact hstep p p' declaration List.mem_cons_self hstart hdeclare
    · exact hstart

/-- All declarations are recorded if the first is and then all others. -/
theorem declareAll_cons_eq {p r : Progress} {declaration : Declaration} {rest : List Declaration}
    (h : p.declareAll (declaration :: rest) = (r, none)) :
    ∃ q, p.declare declaration = .ok q ∧ q.declareAll rest = (r, none) := by
  rw [declareAll] at h
  split at h
  · rename_i q hdeclare
    exact ⟨q, hdeclare, h⟩
  · cases h

/-- Where the first declarations are recorded, the others are recorded after them. -/
theorem declareAll_append {p q : Progress} {before : List Declaration}
    (h : p.declareAll before = (q, none)) (after : List Declaration) :
    p.declareAll (before ++ after) = q.declareAll after := by
  induction before generalizing p with
  | nil =>
    cases h
    rfl
  | cons declaration before ih =>
    obtain ⟨p', hdeclare, hbefore⟩ := declareAll_cons_eq h
    rw [List.cons_append, declareAll, hdeclare]
    exact ih hbefore

/-- The declarations before a declaration are recorded before it, and the others after it. -/
theorem declareAll_append_cons {p r : Progress} {before after : List Declaration}
    {declaration : Declaration} (h : p.declareAll (before ++ declaration :: after) = (r, none)) :
    ∃ q q', p.declareAll before = (q, none) ∧ q.declare declaration = .ok q' ∧
      q'.declareAll after = (r, none) := by
  induction before generalizing p with
  | nil =>
    obtain ⟨q', hdeclare, hafter⟩ := declareAll_cons_eq h
    exact ⟨p, q', rfl, hdeclare, hafter⟩
  | cons first before ih =>
    obtain ⟨p', hfirst, hrest⟩ := declareAll_cons_eq h
    obtain ⟨q, q', hbefore, hdeclare, hafter⟩ := ih hrest
    refine ⟨q, q', ?_, hdeclare, hafter⟩
    rw [declareAll, hfirst]
    exact hbefore

/-- What is reported stays reported when a declaration is recorded. -/
theorem prefix_declare {p p' : Progress} {declaration : Declaration}
    (h : p.declare declaration = .ok p') : p.diagnostics <+: p'.diagnostics := by
  cases declaration with
  | uniform =>
    cases h
    exact List.prefix_rfl
  | function | shader =>
    cases h
    exact List.prefix_append _ _
  | composition stage name inputs outputs down up =>
    obtain ⟨downShader, upShader, -, -, rfl⟩ := declare_composition_eq_ok h
    rcases addComposite_cases p stage name inputs outputs down up downShader upShader with
      ⟨shader, -, -, hdiagnostics⟩ | ⟨mismatch, -, -, hdiagnostics⟩
    · exact hdiagnostics ▸ List.prefix_rfl
    · exact hdiagnostics ▸ List.prefix_append _ _
  | program name vertexName fragmentName =>
    obtain ⟨vertex, fragment, -, -, rfl⟩ := declare_program_eq_ok h
    exact (prefix_checkStage p _ _ _ _).trans (prefix_checkStage _ _ _ _ _)

/-- What is reported stays reported. -/
theorem prefix_declareAll {p r : Progress} {declarations : List Declaration}
    (h : p.declareAll declarations = (r, none)) : p.diagnostics <+: r.diagnostics := by
  induction declarations generalizing p with
  | nil =>
    cases h
    exact List.prefix_rfl
  | cons declaration rest ih =>
    obtain ⟨q, hdeclare, hrest⟩ := declareAll_cons_eq h
    exact (prefix_declare hdeclare).trans (ih hrest)

end Progress

/-! ## What declarations declare -/

namespace Declaration

/-- The uniform that a declaration declares, if it is one. -/
def uniform? : Declaration → Option Func
  | .uniform ty name => some (.uniform name.text ty)
  | _ => none

/-- The function that a declaration declares, if it is one. -/
def function? : Declaration → Option Func
  | .function name params result body =>
    some ⟨name.text, params.map fun param => (param.name.text, param.ty), result,
      .body name.text body⟩
  | _ => none

end Declaration

/-- The uniforms that declarations declare. -/
def uniformsIn (declarations : List Declaration) : List Func :=
  declarations.filterMap Declaration.uniform?

/-- The functions that declarations declare. -/
def functionsIn (declarations : List Declaration) : List Func :=
  declarations.filterMap Declaration.function?

@[simp] theorem uniformsIn_append (before after : List Declaration) :
    uniformsIn (before ++ after) = uniformsIn before ++ uniformsIn after :=
  List.filterMap_append

@[simp] theorem uniformsIn_cons (declaration : Declaration) (rest : List Declaration) :
    uniformsIn (declaration :: rest) = declaration.uniform?.toList ++ uniformsIn rest := by
  cases h : declaration.uniform? <;> simp [uniformsIn, h]

@[simp] theorem functionsIn_append (before after : List Declaration) :
    functionsIn (before ++ after) = functionsIn before ++ functionsIn after :=
  List.filterMap_append

@[simp] theorem functionsIn_cons (declaration : Declaration) (rest : List Declaration) :
    functionsIn (declaration :: rest) = declaration.function?.toList ++ functionsIn rest := by
  cases h : declaration.function? <;> simp [functionsIn, h]

namespace Progress

/-- A declaration records the uniform and the function that it declares. -/
theorem registry_declare {p p' : Progress} {declaration : Declaration}
    (h : p.declare declaration = .ok p') :
    p'.registry.uniforms = p.registry.uniforms ++ declaration.uniform?.toList ∧
      p'.registry.functions = p.registry.functions ++ declaration.function?.toList := by
  cases declaration with
  | uniform | function | shader =>
    cases h
    simp [addUniform, addFunction, addShader, lint, Registry.addUniform, Registry.addFunction,
      Registry.addShader, Declaration.uniform?, Declaration.function?]
  | composition stage name inputs outputs down up =>
    obtain ⟨downShader, upShader, -, -, rfl⟩ := declare_composition_eq_ok h
    rcases addComposite_cases p stage name inputs outputs down up downShader upShader with
      ⟨shader, -, hregistry, -⟩ | ⟨mismatch, -, hregistry, -⟩
    · simp [hregistry, Registry.addShader, Declaration.uniform?, Declaration.function?]
    · simp [hregistry, Declaration.uniform?, Declaration.function?]
  | program name vertexName fragmentName =>
    obtain ⟨vertex, fragment, -, -, rfl⟩ := declare_program_eq_ok h
    simp [addProgram, Registry.addProgram, registry_checkStage, Declaration.uniform?,
      Declaration.function?]

/-- The recorded uniforms and functions are those of the declarations, in their order. -/
theorem registry_declareAll {p r : Progress} {declarations : List Declaration}
    (h : p.declareAll declarations = (r, none)) :
    r.registry.uniforms = p.registry.uniforms ++ uniformsIn declarations ∧
      r.registry.functions = p.registry.functions ++ functionsIn declarations := by
  induction declarations generalizing p with
  | nil =>
    cases h
    simp [uniformsIn, functionsIn]
  | cons declaration rest ih =>
    obtain ⟨q, hdeclare, hrest⟩ := declareAll_cons_eq h
    obtain ⟨huniforms, hfunctions⟩ := registry_declare hdeclare
    obtain ⟨huniforms', hfunctions'⟩ := ih hrest
    rw [huniforms', huniforms, hfunctions', hfunctions]
    simp

/-- A recorded shader was recorded before, or the declaration is its own: it spells the shader out,
or it composes two recorded ones. -/
theorem mem_shaders_declare {p p' : Progress} {declaration : Declaration}
    (h : p.declare declaration = .ok p') {entry : String × Shader}
    (hentry : entry ∈ p'.registry.shaders) :
    entry ∈ p.registry.shaders ∨
      (∃ stage name inputs outputs body,
        declaration = .shader stage name inputs outputs body ∧
        entry = (name.text, ⟨stage, inputs, outputs, body⟩)) ∨
      ∃ stage name inputs outputs downName upName down up,
        declaration = .composition stage name inputs outputs downName upName ∧
        p.shader downName = .ok down ∧ p.shader upName = .ok up ∧ Shader.Fits down up ∧
        entry = (name.text, Shader.composite stage down up) := by
  cases declaration with
  | uniform | function =>
    cases h
    exact Or.inl hentry
  | shader stage name inputs outputs body =>
    cases h
    refine (List.mem_append.mp hentry).imp_right fun hnew => Or.inl ?_
    exact ⟨stage, name, inputs, outputs, body, rfl, List.mem_singleton.mp hnew⟩
  | composition stage name inputs outputs downName upName =>
    obtain ⟨down, up, hdown, hup, rfl⟩ := declare_composition_eq_ok h
    rcases addComposite_cases p stage name inputs outputs downName upName down up with
      ⟨shader, hcompose, hregistry, -⟩ | ⟨mismatch, -, hregistry, -⟩
    · obtain ⟨hfits, rfl⟩ := Shader.compose_eq_ok_iff.mp hcompose
      rw [hregistry] at hentry
      refine (List.mem_append.mp hentry).imp_right fun hnew => Or.inr ?_
      exact ⟨stage, name, inputs, outputs, downName, upName, down, up, rfl, hdown, hup, hfits,
        List.mem_singleton.mp hnew⟩
    · rw [hregistry] at hentry
      exact Or.inl hentry
  | program name vertexName fragmentName =>
    obtain ⟨vertex, fragment, -, -, rfl⟩ := declare_program_eq_ok h
    simp only [addProgram, Registry.addProgram, registry_checkStage] at hentry
    exact Or.inl hentry

/-- The program of two shaders, with the uniforms recorded so far. -/
def programOf (p : Progress) (vertex fragment : Shader) : Program where
  uniforms := p.registry.uniformGlobals
  attributes := vertex.inputs.map (·.requalify .attrib)
  vertex := vertex
  fragment := fragment

/-- A declaration of a program records one program, and any other declaration records none. -/
theorem programs_declare {p p' : Progress} {declaration : Declaration}
    (h : p.declare declaration = .ok p') :
    (∃ name vertexName fragmentName vertex fragment,
      declaration = .program name vertexName fragmentName ∧ p.shader vertexName = .ok vertex ∧
      p.shader fragmentName = .ok fragment ∧
      p'.registry.programs =
        p.registry.programs ++ [(name.text, p.programOf vertex fragment)]) ∨
    ((∀ name vertexName fragmentName, declaration ≠ .program name vertexName fragmentName) ∧
      p'.registry.programs = p.registry.programs) := by
  cases declaration with
  | uniform | function | shader =>
    cases h
    exact Or.inr ⟨by simp, rfl⟩
  | composition stage name inputs outputs down up =>
    obtain ⟨downShader, upShader, -, -, rfl⟩ := declare_composition_eq_ok h
    refine Or.inr ⟨by simp, ?_⟩
    rcases addComposite_cases p stage name inputs outputs down up downShader upShader with
      ⟨shader, -, hregistry, -⟩ | ⟨mismatch, -, hregistry, -⟩
    · rw [hregistry]
      rfl
    · rw [hregistry]
  | program name vertexName fragmentName =>
    obtain ⟨vertex, fragment, hvertex, hfragment, rfl⟩ := declare_program_eq_ok h
    refine Or.inl ⟨name, vertexName, fragmentName, vertex, fragment, rfl, hvertex, hfragment, ?_⟩
    simp only [addProgram, Registry.addProgram, registry_checkStage, programOf]

/-- A recorded program was recorded before, or the declaration is its own. -/
theorem mem_programs_declare {p p' : Progress} {declaration : Declaration}
    (h : p.declare declaration = .ok p') {entry : String × Program}
    (hentry : entry ∈ p'.registry.programs) :
    entry ∈ p.registry.programs ∨
      ∃ name vertexName fragmentName vertex fragment,
        declaration = .program name vertexName fragmentName ∧ p.shader vertexName = .ok vertex ∧
        p.shader fragmentName = .ok fragment ∧
        entry = (name.text, p.programOf vertex fragment) := by
  rcases programs_declare h with
    ⟨name, vertexName, fragmentName, vertex, fragment, hsite, hvertex, hfragment, hnew⟩ | ⟨-, hsame⟩
  · rw [hnew, List.mem_append, List.mem_singleton] at hentry
    exact hentry.imp_right fun hentry =>
      ⟨name, vertexName, fragmentName, vertex, fragment, hsite, hvertex, hfragment, hentry⟩
  · rw [hsame] at hentry
    exact Or.inl hentry

/-- A recorded program was recorded before all declarations, or it is what its declaration finds
recorded. -/
theorem mem_programs_declareAll {p r : Progress} {declarations : List Declaration}
    (h : p.declareAll declarations = (r, none)) {entry : String × Program}
    (hentry : entry ∈ r.registry.programs) :
    entry ∈ p.registry.programs ∨
      ∃ before name vertexName fragmentName after q vertex fragment,
        declarations = before ++ .program name vertexName fragmentName :: after ∧
        p.declareAll before = (q, none) ∧ q.shader vertexName = .ok vertex ∧
        q.shader fragmentName = .ok fragment ∧
        entry = (name.text, q.programOf vertex fragment) := by
  induction declarations generalizing p with
  | nil =>
    cases h
    exact Or.inl hentry
  | cons declaration rest ih =>
    obtain ⟨p', hdeclare, hrest⟩ := declareAll_cons_eq h
    rcases ih hrest with hearlier | hlater
    · refine (mem_programs_declare hdeclare hearlier).imp_right ?_
      rintro ⟨name, vertexName, fragmentName, vertex, fragment, rfl, hvertex, hfragment, hentry⟩
      exact ⟨[], name, vertexName, fragmentName, rest, p, vertex, fragment, rfl, rfl, hvertex,
        hfragment, hentry⟩
    · obtain ⟨before, name, vertexName, fragmentName, after, q, vertex, fragment, rfl, hbefore,
        hvertex, hfragment, hentry⟩ := hlater
      refine Or.inr ⟨declaration :: before, name, vertexName, fragmentName, after, q, vertex,
        fragment, rfl, ?_, hvertex, hfragment, hentry⟩
      rw [declareAll, hdeclare]
      exact hbefore

end Progress

/-! ## Sources -/

/-- The declarations that a source spells, up to the first that cannot be read. -/
def declarationsOf (source : List Char) : List Declaration :=
  match Masked.ofSource source with
  | .error _ => []
  | .ok masked =>
    match tokenize (String.ofList masked.text) with
    | .error _ => []
    | .ok tokens => (Grammar.declarations tokens).1

/-- Read and record the declarations that tokens spell, up to the first one that cannot be read or
recorded. -/
def Progress.advance (p : Progress) (tokens : List Token) : Progress × Option Fault :=
  let (declarations, unread) := Grammar.declarations tokens
  let (q, unrecorded) := p.declareAll declarations
  (q, unrecorded.or unread)

/-- Read and record the declarations that tokens spell after some earlier diagnostics. -/
def Progress.ofTokens (diagnostics : List Diagnostic) (tokens : List Token) :
    Progress × Option Fault :=
  (start diagnostics).advance tokens

/-- The outcome of loading a source that has come to a fault, or to its end. -/
def Loaded.conclude (p : Progress) : Option Fault → Loaded
  | some fault => failed p (.malformed fault)
  | none => ⟨some p.registry.toModule, p.diagnostics, p.events⟩

/-- Tokens are loaded by reading and recording their declarations; then a comment marker that holds
more than its text is a fault.  So tokens that load can be read and recorded without a fault. -/
theorem Loaded.ofTokens_eq (diagnostics : List Diagnostic) (tokens : List Token) :
    Loaded.ofTokens diagnostics tokens =
      conclude (Progress.ofTokens diagnostics tokens).1
        ((Progress.ofTokens diagnostics tokens).2.or
          ((Grammar.strays tokens).map fun span => ⟨.leftOver, span⟩)) := by
  unfold Loaded.ofTokens Progress.ofTokens Progress.advance
  rcases Grammar.declarations tokens with ⟨declarations, unread⟩
  rcases hrecorded : (Progress.start diagnostics).declareAll declarations with ⟨p, unrecorded⟩
  simp only [hrecorded]
  cases hfault : unrecorded.or unread with
  | some fault => rfl
  | none =>
    cases Grammar.strays tokens with
    | some span => rfl
    | none => rfl

/-- No fault is found exactly if all declarations can be read and recorded. -/
theorem Progress.advance_eq_none_iff {p q : Progress} {tokens : List Token} :
    p.advance tokens = (q, none) ↔
      ∃ declarations, Grammar.declarations tokens = (declarations, none) ∧
        p.declareAll declarations = (q, none) := by
  unfold advance
  rcases Grammar.declarations tokens with ⟨declarations, unread⟩
  rcases hrecorded : p.declareAll declarations with ⟨q', unrecorded⟩
  simp only [hrecorded, Prod.mk.injEq, Option.or_eq_none_iff]
  constructor
  · rintro ⟨rfl, rfl, rfl⟩
    exact ⟨declarations, ⟨rfl, rfl⟩, hrecorded⟩
  · rintro ⟨_, ⟨rfl, rfl⟩, hall⟩
    cases hrecorded.symm.trans hall
    exact ⟨rfl, rfl, rfl⟩

/-- Only where there is no fault is there a module, of all that is recorded. -/
theorem Loaded.module_conclude_eq_some_iff {p : Progress} {fault : Option Fault} {m : Module} :
    (conclude p fault).module = some m ↔ fault = none ∧ m = p.registry.toModule := by
  cases fault with
  | none => simp [conclude, eq_comm]
  | some fault => simp [conclude, failed]

/-- Tokens that load spell declarations that can all be recorded. -/
theorem declareAll_of_ofTokens {diagnostics : List Diagnostic} {tokens : List Token} {m : Module}
    (h : (Loaded.ofTokens diagnostics tokens).module = some m) :
    ∃ p, (Progress.start diagnostics).declareAll (Grammar.declarations tokens).1 = (p, none) ∧
      m = p.registry.toModule ∧
      (Loaded.ofTokens diagnostics tokens).diagnostics = p.diagnostics := by
  rw [Loaded.ofTokens_eq] at h ⊢
  obtain ⟨hfault, rfl⟩ := Loaded.module_conclude_eq_some_iff.mp h
  obtain ⟨hnone, -⟩ := Option.or_eq_none_iff.mp hfault
  have hadvance : (Progress.start diagnostics).advance tokens =
      ((Progress.ofTokens diagnostics tokens).1, none) := Prod.ext rfl hnone
  obtain ⟨declarations, hread, hall⟩ := Progress.advance_eq_none_iff.mp hadvance
  refine ⟨_, ?_, rfl, ?_⟩
  · rw [hread]
    exact hall
  · rw [hfault, Loaded.conclude]

/-- A source that loads has declarations that can all be recorded, and its module and diagnostics
are what is recorded. -/
theorem declareAll_of_load {diagnostics : List Diagnostic} {source : List Char} {m : Module}
    (h : (load diagnostics source).module = some m) :
    ∃ p, (Progress.start diagnostics).declareAll (declarationsOf source) = (p, none) ∧
      m = p.registry.toModule ∧ (load diagnostics source).diagnostics = p.diagnostics := by
  unfold load at h ⊢
  unfold declarationsOf
  cases hmasked : Masked.ofSource source with
  | error offset =>
    rw [hmasked] at h
    cases h
  | ok masked =>
    simp only [hmasked] at h ⊢
    cases htokens : tokenize (String.ofList masked.text) with
    | error place =>
      rw [htokens] at h
      cases h
    | ok tokens =>
      simp only [htokens] at h ⊢
      exact declareAll_of_ofTokens h

end ShaderLang
