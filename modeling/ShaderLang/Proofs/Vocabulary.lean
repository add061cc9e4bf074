import ShaderLang.Proofs.Reading
import ShaderLang.Proofs.Recording

/-!
# The vocabulary of recorded declarations

What is recorded of a source has the vocabulary of its tokens: a vocabulary that suits the tokens
has all names, fields and comments of what a source amounts to, also after any number of
compositions, which only add links.

Main results:

- Theorem `Shader.IsPlaced.composite`: a composite has the vocabulary of its shaders, and links.
- Theorem `declareAll_isPlaced`: recorded declarations are well-placed, whatever is recorded.
- Theorem `isPlaced_of_load`: functions and programs have the vocabulary of the source.
-/

namespace ShaderLang

open ShaderLang.Expr ShaderLang.Word

variable {allowed : Vocabulary}

/-! ## Well-placed declarations -/

/-- A function is well-placed: its name and its parameters may be used, and its body is a block of
statements. -/
structure Func.IsPlaced (allowed : Vocabulary) (func : Func) : Prop where
  name : allowed.name func.name
  params : ∀ param ∈ func.params, allowed.name param.1
  body : ∀ body ∈ func.body?, AreStmts allowed.linked body

/-- A shader is well-placed: its inputs and outputs have names that may be used, and its body is a
block of statements. -/
structure Shader.IsPlaced (allowed : Vocabulary) (shader : Shader) : Prop where
  inputs : ∀ x ∈ shader.inputNames, allowed.name x
  outputs : ∀ x ∈ shader.outputNames, allowed.name x
  body : AreStmts allowed.linked shader.body

/-- A program is well-placed: so are its shaders, and its uniforms and attributes have names that
may be used. -/
structure Program.IsPlaced (allowed : Vocabulary) (program : Program) : Prop where
  globals : ∀ global ∈ program.uniforms ++ program.attributes, allowed.name global.name
  vertex : program.vertex.IsPlaced allowed
  fragment : program.fragment.IsPlaced allowed

/-- All recorded declarations are well-placed, and their names may be used. -/
structure Registry.IsPlaced (allowed : Vocabulary) (r : Registry) : Prop where
  uniforms : ∀ func ∈ r.uniforms, allowed.name func.name
  functions : ∀ func ∈ r.functions, func.IsPlaced allowed
  shaders : ∀ entry ∈ r.shaders, entry.2.IsPlaced allowed
  programs : ∀ entry ∈ r.programs, allowed.name entry.1 ∧ entry.2.IsPlaced allowed

/-- A composite of well-placed shaders is well-placed. -/
theorem Shader.IsPlaced.composite {down up : Shader} (hdown : down.IsPlaced allowed)
    (hup : up.IsPlaced allowed) (stage : Stage) : (composite stage down up).IsPlaced allowed where
  inputs := hup.inputs
  outputs := hdown.outputs
  body := areStmts_composite stage hup.body hdown.body (fun x hx => Or.inl (hup.outputs x hx))
    (fun x hx => Or.inl (hdown.inputs x hx)) fun i => Or.inr ⟨i, rfl⟩

/-! ## Declarations as readers give them -/

/-- A uniform that is declared as readers give it has a name that may be used. -/
theorem Declaration.name_of_uniform? {declaration : Declaration}
    (hread : Grammar.IsReadIn allowed declaration) {func : Func}
    (hfunc : declaration.uniform? = some func) : allowed.name func.name := by
  cases declaration with
  | uniform ty name =>
    cases hfunc
    exact hread
  | _ => cases hfunc

/-- A function that is declared as readers give it is well-placed. -/
theorem Func.isPlaced_of_function? {declaration : Declaration}
    (hread : Grammar.IsReadIn allowed declaration) {func : Func}
    (hfunc : declaration.function? = some func) : func.IsPlaced allowed := by
  cases declaration with
  | function name params result block =>
    cases hfunc
    obtain ⟨hparams, hbody, hname⟩ := hread
    refine ⟨hname, fun param hparam => ?_, fun body hblock => ?_⟩
    · obtain ⟨declared, hdeclared, rfl⟩ := List.mem_map.mp hparam
      exact hparams declared hdeclared
    · cases hblock
      exact hbody.1.linked
  | _ => cases hfunc

/-- A shader that is declared as readers give it is well-placed. -/
theorem Shader.isPlaced_of_isReadIn {stage : Stage} {name : Ident} {inputs outputs : List Global}
    {body : Block} (hread : Grammar.IsReadIn allowed (.shader stage name inputs outputs body)) :
    Shader.IsPlaced allowed ⟨stage, inputs, outputs, body⟩ := by
  refine ⟨fun x hx => ?_, fun x hx => ?_, hread.2.1.linked⟩
  · obtain ⟨global, hglobal, rfl⟩ := List.mem_map.mp hx
    exact hread.1 global (List.mem_append_left _ hglobal)
  · obtain ⟨global, hglobal, rfl⟩ := List.mem_map.mp hx
    exact hread.1 global (List.mem_append_right _ hglobal)

namespace Progress

/-- A shader that is found is well-placed. -/
theorem isPlaced_of_shader_eq_ok {p : Progress} (h : p.registry.IsPlaced allowed) {name : Ident}
    {shader : Shader} (hshader : p.shader name = .ok shader) : shader.IsPlaced allowed := by
  obtain ⟨entry, hentry, rfl⟩ := mem_shaders_of_shader_eq_ok hshader
  exact h.shaders entry hentry

/-- A program of well-placed shaders is well-placed. -/
theorem isPlaced_programOf {p : Progress} (h : p.registry.IsPlaced allowed)
    {vertex fragment : Shader} (hvertex : vertex.IsPlaced allowed)
    (hfragment : fragment.IsPlaced allowed) : (p.programOf vertex fragment).IsPlaced allowed := by
  refine ⟨fun global hglobal => ?_, hvertex, hfragment⟩
  rcases List.mem_append.mp hglobal with huniform | hattribute
  · obtain ⟨func, hfunc, hglobal⟩ := List.mem_filterMap.mp huniform
    have hname : global.name = func.name := by
      unfold Func.global? at hglobal
      split at hglobal
      · obtain ⟨ty, -, rfl⟩ := Option.map_eq_some_iff.mp hglobal
        rfl
      · obtain ⟨ty, -, rfl⟩ := Option.map_eq_some_iff.mp hglobal
        rfl
      · cases hglobal
    rw [hname]
    exact h.uniforms func hfunc
  · obtain ⟨input, hinput, rfl⟩ := List.mem_map.mp hattribute
    exact hvertex.inputs input.name (List.mem_map_of_mem hinput)

/-- Recording a declaration as readers give it keeps all that is recorded well-placed. -/
theorem declare_isPlaced {p p' : Progress} {declaration : Declaration}
    (hread : Grammar.IsReadIn allowed declaration) (h : p.registry.IsPlaced allowed)
    (hdeclare : p.declare declaration = .ok p') : p'.registry.IsPlaced allowed where
  uniforms := by
    intro func hfunc
    rw [(registry_declare hdeclare).1] at hfunc
    rcases List.mem_append.mp hfunc with hold | hnew
    · exact h.uniforms func hold
    · exact declaration.name_of_uniform? hread (Option.mem_toList.mp hnew)
  functions := by
    intro func hfunc
    rw [(registry_declare hdeclare).2] at hfunc
    rcases List.mem_append.mp hfunc with hold | hnew
    · exact h.functions func hold
    · exact Func.isPlaced_of_function? hread (Option.mem_toList.mp hnew)
  shaders := by
    intro entry hentry
    rcases mem_shaders_declare hdeclare hentry with
      hold | ⟨stage, name, inputs, outputs, body, rfl, rfl⟩ |
        ⟨stage, name, inputs, outputs, downName, upName, down, up, rfl, hdown, hup, -, rfl⟩
    · exact h.shaders entry hold
    · exact Shader.isPlaced_of_isReadIn hread
    · exact (isPlaced_of_shader_eq_ok h hdown).composite (isPlaced_of_shader_eq_ok h hup) stage
  programs := by
    intro entry hentry
    rcases mem_programs_declare hdeclare hentry with
      hold | ⟨name, vertexName, fragmentName, vertex, fragment, rfl, hvertex, hfragment, rfl⟩
    · exact h.programs entry hold
    · exact ⟨hread, isPlaced_programOf h (isPlaced_of_shader_eq_ok h hvertex)
        (isPlaced_of_shader_eq_ok h hfragment)⟩

/-- Recorded declarations are well-placed, whatever is recorded. -/
theorem declareAll_isPlaced {declarations : List Declaration}
    (hread : ∀ declaration ∈ declarations, Grammar.IsReadIn allowed declaration)
    (diagnostics : List Diagnostic) :
    ((start diagnostics).declareAll declarations).1.registry.IsPlaced allowed :=
  declareAll_induct (fun p => p.registry.IsPlaced allowed)
    (fun _ _ declaration hmem h hdeclare => declare_isPlaced (hread declaration hmem) h hdeclare)
    ⟨by simp [start], by simp [start], by simp [start], by simp [start]⟩

end Progress

/-! ## Sources -/

/-- A vocabulary has what the tokens of a source spell. -/
def Vocabulary.SuitsSource (allowed : Vocabulary) (source : List Char) : Prop :=
  ∀ masked tokens, Masked.ofSource source = .ok masked →
    tokenize (String.ofList masked.text) = .ok tokens → allowed.Suits tokens

/-- The declarations of a source are as readers give them. -/
theorem isReadIn_of_mem_declarationsOf {source : List Char} (h : allowed.SuitsSource source) :
    ∀ declaration ∈ declarationsOf source, Grammar.IsReadIn allowed declaration := by
  unfold declarationsOf
  split
  · simp
  · split
    · simp
    · rename_i hmasked _ _ htokens
      exact Grammar.isReadIn_of_suits (h _ _ hmasked htokens)

/-- Any names that are not reserved suit a source. -/
theorem Vocabulary.suitsSource_unreserved (source : List Char) :
    (Vocabulary.ofNames Unreserved).SuitsSource source :=
  fun _ tokens _ _ => suits_unreserved tokens

/-- What a source amounts to is well-placed, in any vocabulary that suits the source. -/
theorem isPlaced_of_load {diagnostics : List Diagnostic} {source : List Char} {m : Module}
    (h : (load diagnostics source).module = some m) (hsuits : allowed.SuitsSource source) :
    (∀ func ∈ m.functions, func.IsPlaced allowed) ∧
      ∀ entry ∈ m.programs, allowed.name entry.1 ∧ entry.2.IsPlaced allowed := by
  obtain ⟨p, hrecorded, rfl, -⟩ := declareAll_of_load h
  have hplaced := Progress.declareAll_isPlaced (isReadIn_of_mem_declarationsOf hsuits) diagnostics
  rw [hrecorded] at hplaced
  exact ⟨hplaced.functions, hplaced.programs⟩

end ShaderLang
