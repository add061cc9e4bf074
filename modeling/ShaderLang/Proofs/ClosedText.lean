import ShaderLang.Proofs.Recording
import ShaderLang.Target.Stage

/-!
# Closed texts

If a source loads without a diagnostic, the text of a stage uses only names that it declares before
their use.  A stage body sees the variables that the stage declares and all functions.  A function
sees its parameters, itself and the functions before it, and the uniforms of the program; one that
is declared after the program may also use uniforms that are declared between the two, which the
text of the program does not declare.

Main results:

- Theorem `shadersClosed_declareAll`: recorded shaders use only their inputs and outputs, recorded
  uniforms and functions, and what the target language provides.
- Theorem `closed_of_declare_function`: a function uses only its parameters, itself, and what is
  recorded before it.
- Theorem `closed_of_load`: the texts of a clean source are closed, up to later uniforms.
-/

namespace ShaderLang

/-- The free names of a body are visible, or the target language provides them. -/
def Block.Closed (visible : List String) (body : Block) : Prop :=
  ∀ x ∈ Scope.freeInBlock body, x ∈ visible ∨ x ∈ builtins

namespace Block

instance (visible : List String) (body : Block) : Decidable (body.Closed visible) :=
  inferInstanceAs (Decidable (∀ x ∈ Scope.freeInBlock body, x ∈ visible ∨ x ∈ builtins))

/-- More names may be visible. -/
theorem Closed.mono {visible more : List String} {body : Block} (h : body.Closed visible)
    (hsub : visible ⊆ more) : body.Closed more :=
  fun x hx => (h x hx).imp_left fun hmem => hsub hmem

/-- A body is closed exactly if the lint finds nothing. -/
theorem closed_iff_unresolved_eq_nil {visible : List String} {body : Block} :
    body.Closed visible ↔ unresolved (.global visible) body = [] := by
  rw [unresolved_eq_nil_iff]
  simp [Closed, Env.global, Env.resolves]

end Block

namespace Progress

/-! ## Shaders -/

/-- The names of what is recorded for all bodies: uniforms and functions. -/
def recordedNames (p : Progress) : List String :=
  p.registry.uniforms.map Func.name ++ p.registry.functions.map Func.name

/-- The recorded shaders use only their inputs and outputs and what is recorded. -/
def ShadersClosed (p : Progress) : Prop :=
  ∀ entry ∈ p.registry.shaders,
    entry.2.body.Closed (entry.2.inputNames ++ entry.2.outputNames ++ p.recordedNames)

/-- A body sees what is recorded and some variables. -/
theorem mem_visibleNames_iff {p : Progress} {globals : List Global} {x : String} :
    x ∈ p.registry.visibleNames globals ↔ x ∈ p.recordedNames ∨ x ∈ globals.map (·.name) := by
  have hnames : (globals.map Func.varying).map Func.name = globals.map (·.name) := by
    simp [Func.varying]
  rw [Registry.visibleNames, List.map_append, List.map_append, hnames, List.mem_append,
    recordedNames]

/-- A body in which the lint reports nothing is closed. -/
theorem closed_of_lint {p : Progress} {name : Ident} {visible : List String} {body : Block}
    (hclean : (p.lint name visible body).diagnostics = []) : body.Closed visible := by
  rw [Block.closed_iff_unresolved_eq_nil]
  simp only [lint, List.append_eq_nil_iff, List.map_eq_nil_iff] at hclean
  exact hclean.2

/-- What is recorded stays recorded. -/
theorem recordedNames_subset {p p' : Progress} {declaration : Declaration}
    (h : p.declare declaration = .ok p') : p.recordedNames ⊆ p'.recordedNames := by
  obtain ⟨huniforms, hfunctions⟩ := registry_declare h
  intro x hx
  simp only [recordedNames, huniforms, hfunctions, List.map_append, List.mem_append] at hx ⊢
  tauto

/-- A composite of closed shaders is closed. -/
theorem closed_composite {down up : Shader} (hfits : Shader.Fits down up) (stage : Stage)
    {names : List String} (hdown : down.body.Closed (down.inputNames ++ down.outputNames ++ names))
    (hup : up.body.Closed (up.inputNames ++ up.outputNames ++ names)) :
    (Shader.composite stage down up).body.Closed (up.inputNames ++ down.outputNames ++ names) := by
  intro x hx
  rcases Shader.mem_freeInBlock_composite hfits hx with ⟨hfree, hnot⟩ | ⟨hfree, hnot⟩
  · have hvisible := hup x hfree
    simp only [List.mem_append] at hvisible ⊢
    tauto
  · have hvisible := hdown x hfree
    simp only [List.mem_append] at hvisible ⊢
    tauto

/-- A clean declaration keeps all recorded shaders closed. -/
theorem shadersClosed_declare {p p' : Progress} {declaration : Declaration}
    (h : p.ShadersClosed) (hdeclare : p.declare declaration = .ok p')
    (hclean : p'.diagnostics = []) : p'.ShadersClosed := by
  have hsub := recordedNames_subset hdeclare
  have hwiden : ∀ shader : Shader,
      shader.body.Closed (shader.inputNames ++ shader.outputNames ++ p.recordedNames) →
      shader.body.Closed (shader.inputNames ++ shader.outputNames ++ p'.recordedNames) := by
    intro shader hclosed
    refine hclosed.mono fun x hx => ?_
    simp only [List.mem_append] at hx ⊢
    exact hx.imp_right fun hmem => hsub hmem
  intro entry hentry
  rcases mem_shaders_declare hdeclare hentry with
    hold | ⟨stage, name, inputs, outputs, body, rfl, rfl⟩ |
      ⟨stage, name, inputs, outputs, downName, upName, down, up, rfl, hdown, hup, hfits, rfl⟩
  · exact hwiden entry.2 (h entry hold)
  · cases hdeclare
    refine hwiden ⟨stage, inputs, outputs, body⟩ ((closed_of_lint hclean).mono fun x hx => ?_)
    rw [mem_visibleNames_iff, List.map_append] at hx
    exact List.mem_append.mpr hx.symm
  · obtain ⟨downEntry, hdownEntry, rfl⟩ := mem_shaders_of_shader_eq_ok hdown
    obtain ⟨upEntry, hupEntry, rfl⟩ := mem_shaders_of_shader_eq_ok hup
    exact hwiden _ (closed_composite hfits stage (h _ hdownEntry) (h _ hupEntry))

/-- The shaders of a clean source are closed. -/
theorem shadersClosed_declareAll {diagnostics : List Diagnostic} {declarations : List Declaration}
    {p : Progress} (h : (start diagnostics).declareAll declarations = (p, none))
    (hclean : p.diagnostics = []) : p.ShadersClosed := by
  have hstart : (start diagnostics).diagnostics = [] → (start diagnostics).ShadersClosed :=
    fun _ => by simp [ShadersClosed, start]
  have hstep : ∀ (p p' : Progress) (declaration : Declaration), declaration ∈ declarations →
      (p.diagnostics = [] → p.ShadersClosed) → p.declare declaration = .ok p' →
      p'.diagnostics = [] → p'.ShadersClosed := by
    intro p p' declaration _ hclosed hdeclare hclean
    have hbefore : p.diagnostics = [] := List.prefix_nil.mp (hclean ▸ prefix_declare hdeclare)
    exact shadersClosed_declare (hclosed hbefore) hdeclare hclean
  have hall := declareAll_induct (fun p => p.diagnostics = [] → p.ShadersClosed) hstep hstart
  rw [h] at hall
  exact hall hclean

/-! ## Functions -/

/-- A clean function uses only its parameters, itself, and what is recorded before it. -/
theorem closed_of_declare_function {p p' : Progress} {declaration : Declaration} {func : Func}
    (hdeclare : p.declare declaration = .ok p') (hfunc : declaration.function? = some func)
    (hclean : p'.diagnostics = []) {body : Block} (hbody : func.body? = some body) :
    body.Closed (func.params.map Prod.fst ++ [func.name] ++ p.recordedNames) := by
  cases declaration with
  | function name params result block =>
    cases hdeclare
    cases hfunc
    cases hbody
    refine (closed_of_lint hclean).mono fun x hx => ?_
    simp only [List.mem_append, List.mem_cons, mem_visibleNames_iff, List.map_nil,
      List.not_mem_nil, or_false, List.map_map, Function.comp_def] at hx ⊢
    tauto
  | _ => cases hfunc

end Progress

/-! ## Texts -/

/-- The uniforms of declarations keep their names as global variables. -/
theorem names_global?_uniformsIn (declarations : List Declaration) :
    ((uniformsIn declarations).filterMap Func.global?).map (·.name) =
      (uniformsIn declarations).map Func.name := by
  induction declarations with
  | nil => rfl
  | cons declaration rest ih =>
    cases declaration <;> simp [Declaration.uniform?, Func.uniform, Func.global?, ih]

/-- A function among those of declarations is declared after the functions before it. -/
theorem exists_of_functionsIn_eq {declarations : List Declaration} {earlier later : List Func}
    {func : Func} (h : functionsIn declarations = earlier ++ func :: later) :
    ∃ before declaration after, declarations = before ++ declaration :: after ∧
      declaration.function? = some func ∧ functionsIn before = earlier := by
  obtain ⟨first, rest, rfl, hfirst, hrest⟩ := List.filterMap_eq_append_iff.mp h
  obtain ⟨others, declaration, after, rfl, hothers, hfunc, -⟩ := List.filterMap_eq_cons_iff.mp hrest
  refine ⟨first ++ others, declaration, after, by simp, hfunc, ?_⟩
  have hnone : others.filterMap Declaration.function? = [] :=
    List.filterMap_eq_nil_iff.mpr hothers
  rw [functionsIn, List.filterMap_append, hfirst, hnone, List.append_nil]

namespace Progress

variable {diagnostics : List Diagnostic} {declarations : List Declaration} {p : Progress}

/-- After all declarations the recorded names are those of their uniforms and functions. -/
theorem recordedNames_declareAll (h : (start diagnostics).declareAll declarations = (p, none)) :
    p.recordedNames =
      (uniformsIn declarations).map Func.name ++ (functionsIn declarations).map Func.name := by
  obtain ⟨huniforms, hfunctions⟩ := registry_declareAll h
  rw [recordedNames, huniforms, hfunctions]
  rfl

/-- The uniforms of a program are those that are declared before it. -/
theorem names_uniforms_programOf (h : (start diagnostics).declareAll declarations = (p, none))
    (vertex fragment : Shader) :
    (p.programOf vertex fragment).uniforms.map (·.name) =
      (uniformsIn declarations).map Func.name := by
  obtain ⟨huniforms, -⟩ := registry_declareAll h
  have hrecorded : p.registry.uniforms = uniformsIn declarations := huniforms
  rw [programOf, Registry.uniformGlobals, hrecorded, names_global?_uniformsIn]

/-- The body of a stage of a clean source uses only variables that the stage declares and functions
that are declared before the program. -/
theorem closed_stages_programOf (h : (start diagnostics).declareAll declarations = (p, none))
    (hclean : p.diagnostics = []) {vertexName fragmentName : Ident} {vertex fragment : Shader}
    (hvertex : p.shader vertexName = .ok vertex)
    (hfragment : p.shader fragmentName = .ok fragment) :
    vertex.body.Closed ((Target.vertexGlobals (p.programOf vertex fragment)).map (·.name) ++
        (functionsIn declarations).map Func.name) ∧
      fragment.body.Closed ((Target.fragmentGlobals (p.programOf vertex fragment)).map (·.name) ++
        (functionsIn declarations).map Func.name) := by
  have hclosed := shadersClosed_declareAll h hclean
  have huniforms := names_uniforms_programOf h vertex fragment
  obtain ⟨vertexEntry, hvertexEntry, rfl⟩ := mem_shaders_of_shader_eq_ok hvertex
  obtain ⟨fragmentEntry, hfragmentEntry, rfl⟩ := mem_shaders_of_shader_eq_ok hfragment
  have hvertexClosed := hclosed vertexEntry hvertexEntry
  have hfragmentClosed := hclosed fragmentEntry hfragmentEntry
  rw [recordedNames_declareAll h] at hvertexClosed hfragmentClosed
  have hattributes : (p.programOf vertexEntry.2 fragmentEntry.2).attributes.map (·.name) =
      vertexEntry.2.inputNames := by
    simp [programOf, Shader.inputNames, Global.requalify]
  refine ⟨hvertexClosed.mono fun x hx => ?_, hfragmentClosed.mono fun x hx => ?_⟩
  · simp only [Target.vertexGlobals, List.map_append, huniforms, hattributes, List.mem_append]
      at hx ⊢
    simp only [programOf, Shader.outputNames] at hx ⊢
    tauto
  · simp only [Target.fragmentGlobals, List.map_append, huniforms, List.mem_append] at hx ⊢
    simp only [programOf, Shader.inputNames, Shader.outputNames] at hx ⊢
    tauto

/-- A function of a clean source uses only its parameters, itself, and the functions and uniforms
that are declared before it. -/
theorem closed_of_function? {before after : List Declaration} {declaration : Declaration}
    (h : (start diagnostics).declareAll (before ++ declaration :: after) = (p, none))
    (hclean : p.diagnostics = []) {func : Func} (hfunc : declaration.function? = some func)
    {body : Block} (hbody : func.body? = some body) :
    body.Closed (func.params.map Prod.fst ++ (functionsIn before ++ [func]).map Func.name ++
      (uniformsIn before).map Func.name) := by
  obtain ⟨q, q', hbefore, hdeclare, hafter⟩ := declareAll_append_cons h
  have hclean' : q'.diagnostics = [] := List.prefix_nil.mp (hclean ▸ prefix_declareAll hafter)
  have hclosed := closed_of_declare_function hdeclare hfunc hclean' hbody
  rw [recordedNames_declareAll hbefore] at hclosed
  refine hclosed.mono fun x hx => ?_
  simp only [List.map_append, List.map_cons, List.map_nil, List.mem_append] at hx ⊢
  tauto

end Progress

/-- Of two members of a list, the second stands before the first or after it. -/
theorem stands_before_or_after {α : Type} {before after first last : List α} {x y : α}
    (hne : x ≠ y) (h : before ++ x :: after = first ++ y :: last) :
    (∃ between, before = first ++ y :: between) ∨
      ∃ between, first = before ++ x :: between ∧ after = between ++ y :: last := by
  rcases List.append_eq_append_iff.mp h with ⟨rest, hfirst, hrest⟩ | ⟨rest, hbefore, hrest⟩
  · cases rest with
    | nil => exact absurd (List.cons.inj hrest).1 hne
    | cons head between =>
      obtain ⟨rfl, rfl⟩ := List.cons.inj hrest
      exact Or.inr ⟨between, hfirst, rfl⟩
  · cases rest with
    | nil => exact absurd (List.cons.inj hrest).1.symm hne
    | cons head between =>
      obtain ⟨rfl, -⟩ := List.cons.inj hrest
      exact Or.inl ⟨between, hbefore⟩

/-- A function of a clean source is declared before a program or after it.  Before it, the function
uses only uniforms that are declared before the program. -/
theorem Progress.closed_around_program {diagnostics : List Diagnostic}
    {before after : List Declaration} {ident vertexName fragmentName : Ident} {p : Progress}
    (h : (start diagnostics).declareAll
      (before ++ .program ident vertexName fragmentName :: after) = (p, none))
    (hclean : p.diagnostics = []) {earlier later : List Func} {func : Func}
    (hfunctions : p.registry.functions = earlier ++ func :: later) {body : Block}
    (hbody : func.body? = some body) :
    (earlier.length < (functionsIn before).length ∧
      body.Closed (func.params.map Prod.fst ++ (earlier ++ [func]).map Func.name ++
        (uniformsIn before).map Func.name)) ∨
    ∃ between declaration rest, after = between ++ declaration :: rest ∧
      declaration.function? = some func ∧ earlier = functionsIn before ++ functionsIn between ∧
      body.Closed (func.params.map Prod.fst ++ (earlier ++ [func]).map Func.name ++
        ((uniformsIn before).map Func.name ++ (uniformsIn between).map Func.name)) := by
  obtain ⟨-, hrecorded⟩ := registry_declareAll h
  obtain ⟨first, declaration, last, hsplit, hfunc, rfl⟩ :=
    exists_of_functionsIn_eq (hrecorded.symm.trans hfunctions)
  rw [hsplit] at h
  have hclosed := closed_of_function? h hclean hfunc hbody
  have hne : Declaration.program ident vertexName fragmentName ≠ declaration := by
    rintro rfl
    cases hfunc
  rcases stands_before_or_after hne hsplit with ⟨between, rfl⟩ | ⟨between, rfl, rfl⟩
  · refine Or.inl ⟨by simp [hfunc], hclosed.mono fun x hx => ?_⟩
    simp only [uniformsIn_append, List.map_append, List.mem_append] at hx ⊢
    tauto
  · refine Or.inr ⟨between, declaration, last, rfl, hfunc, ?_, ?_⟩
    · simp [Declaration.function?]
    · simpa [Declaration.uniform?] using hclosed

/-- The texts of a program use only names that they declare before their use, up to uniforms that
come too late: all functions of the module stand in the texts, but only the uniforms before the
program do. -/
structure ClosedTexts (m : Module) (program : Program) (before after : List Declaration) :
    Prop where
  /-- The vertex shader uses the variables that its stage declares, and functions. -/
  vertex : program.vertex.body.Closed
    ((Target.vertexGlobals program).map (·.name) ++ m.functions.map Func.name)
  /-- The fragment shader uses the variables that its stage declares, and functions. -/
  fragment : program.fragment.body.Closed
    ((Target.fragmentGlobals program).map (·.name) ++ m.functions.map Func.name)
  /-- A function uses its parameters, itself, the functions before it and the uniforms of the
  program.  If it is declared after the program, it may also use the uniforms between the two. -/
  functions : ∀ earlier func later, m.functions = earlier ++ func :: later → ∀ body ∈ func.body?,
    (earlier.length < (functionsIn before).length ∧
      body.Closed (func.params.map Prod.fst ++ (earlier ++ [func]).map Func.name ++
        program.uniforms.map (·.name))) ∨
    ∃ between declaration rest, after = between ++ declaration :: rest ∧
      declaration.function? = some func ∧ earlier = functionsIn before ++ functionsIn between ∧
      body.Closed (func.params.map Prod.fst ++ (earlier ++ [func]).map Func.name ++
        (program.uniforms.map (·.name) ++ (uniformsIn between).map Func.name))

/-- A source with a uniform and a function before a program and after it. -/
def lateUniform : List Char :=
  "uniform Int s f:Int=\x7bs\x7d vert v:(Int x)->(Int y)=\x7bout y=x+f()\x7d".toList ++
  "frag e:(Int y)->()=\x7b\x7d p:Prog=mkProg v e uniform Int t g:Int=\x7bt\x7d".toList

/-- The names that a function may use if the texts of a program are to be closed, whatever the order
of the functions. -/
def Program.namesFor (program : Program) (m : Module) (func : Func) : List String :=
  func.params.map Prod.fst ++ m.functions.map Func.name ++
    ((Target.vertexGlobals program).map (·.name) ++ (Target.fragmentGlobals program).map (·.name))

/-- What loading `lateUniform` gives: no diagnostic, and a program whose texts hold a function that
is not closed in them. -/
theorem load_lateUniform : ((load [] lateUniform).module.any fun m =>
    (load [] lateUniform).diagnostics.isEmpty && m.programs.any fun entry =>
      entry.1 == "p" && m.functions.any fun func => func.body?.any fun body =>
        !decide (body.Closed (entry.2.namesFor m func))) = true := by
  decide +kernel

/-- If a source loads without a diagnostic, the texts of its programs are closed. -/
theorem closed_of_load {diagnostics : List Diagnostic} {source : List Char} {m : Module}
    (h : (load diagnostics source).module = some m)
    (hclean : (load diagnostics source).diagnostics = []) {name : String} {program : Program}
    (hprogram : (name, program) ∈ m.programs) :
    ∃ before ident vertexName fragmentName after,
      declarationsOf source = before ++ .program ident vertexName fragmentName :: after ∧
      ident.text = name ∧ ClosedTexts m program before after := by
  obtain ⟨p, hall, rfl, hdiagnostics⟩ := declareAll_of_load h
  rw [hdiagnostics] at hclean
  obtain hnone | ⟨before, ident, vertexName, fragmentName, after, q, vertex, fragment, hsource,
    hbefore, hvertex, hfragment, hentry⟩ := Progress.mem_programs_declareAll hall hprogram
  · cases hnone
  cases hentry
  obtain ⟨-, hfunctions⟩ := Progress.registry_declareAll hall
  replace hfunctions : p.registry.functions = functionsIn (declarationsOf source) := hfunctions
  have huniforms := Progress.names_uniforms_programOf hbefore vertex fragment
  rw [hsource] at hall hfunctions
  have hprefix := Progress.prefix_declareAll
    ((Progress.declareAll_append hbefore _).symm.trans hall)
  have hbeforeClean : q.diagnostics = [] := List.prefix_nil.mp (hclean ▸ hprefix)
  obtain ⟨hvertexClosed, hfragmentClosed⟩ :=
    Progress.closed_stages_programOf hbefore hbeforeClean hvertex hfragment
  have hmore : functionsIn before ⊆ p.registry.functions := by
    rw [hfunctions, functionsIn_append]
    exact List.subset_append_left _ _
  have hwiden (names : List String) : names ++ (functionsIn before).map Func.name ⊆
      names ++ p.registry.functions.map Func.name :=
    List.append_subset.mpr ⟨List.subset_append_left _ _,
      List.Subset.trans (List.map_subset _ hmore) (List.subset_append_right _ _)⟩
  refine ⟨before, ident, vertexName, fragmentName, after, hsource, rfl,
    hvertexClosed.mono (hwiden _), hfragmentClosed.mono (hwiden _), ?_⟩
  intro earlier func later hsplit body hbody
  rw [huniforms]
  exact Progress.closed_around_program hall hclean hsplit hbody

/-- The texts of `lateUniform` are closed up to its second uniform. -/
theorem closed_lateUniform :
    ∃ m program before after, (load [] lateUniform).module = some m ∧
      (load [] lateUniform).diagnostics = [] ∧ ("p", program) ∈ m.programs ∧
      ClosedTexts m program before after := by
  obtain ⟨m, hm, hloaded⟩ := (Option.any_eq_true _ _).mp load_lateUniform
  simp only [Bool.and_eq_true, List.isEmpty_iff, List.any_eq_true, beq_iff_eq] at hloaded
  obtain ⟨hclean, ⟨name, program⟩, hprogram, rfl, -⟩ := hloaded
  obtain ⟨before, -, -, -, after, -, -, hclosed⟩ := closed_of_load hm hclean hprogram
  exact ⟨m, program, before, after, hm, hclean, hprogram, hclosed⟩

/-- The texts of `lateUniform` are not closed without its second uniform: a function of theirs uses
a name that is none of its parameters, no function, and no variable of either stage. -/
theorem not_closed_lateUniform :
    ∃ m, (load [] lateUniform).module = some m ∧ (load [] lateUniform).diagnostics = [] ∧
      ∃ entry ∈ m.programs, ∃ func ∈ m.functions, ∃ body ∈ func.body?,
        ¬ body.Closed (entry.2.namesFor m func) := by
  obtain ⟨m, hm, hloaded⟩ := (Option.any_eq_true _ _).mp load_lateUniform
  simp only [Bool.and_eq_true, List.isEmpty_iff, List.any_eq_true, Option.any_eq_true,
    Bool.not_eq_true', decide_eq_false_iff_not] at hloaded
  obtain ⟨hclean, entry, hentry, -, hfunction⟩ := hloaded
  exact ⟨m, hm, hclean, entry, hentry, hfunction⟩

end ShaderLang
