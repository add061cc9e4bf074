import ShaderLang.Proofs.Delimiting
import ShaderLang.Proofs.Snapshot

/-!
# Texts that go on

What follows a text that can be read and recorded changes nothing about it.  Recording reads only
the tables, never what was reported before, so what is recorded and reported later is the same after
other reports; in particular a composition that fails is passed over but for its report.

Main results:

- Theorem `declareAll_prepend`: what declarations record and report does not depend on what was
  reported before.
- Theorem `advance_append`: a text that can be read and recorded is recorded in the same way before
  any other text, which goes on from what is recorded.
- Theorem `extends_ofTokens_append`: later text changes no earlier declaration and no earlier
  diagnostic.
- Theorem `ofTokens_failed_composition`: a composition that fails leaves only its diagnostic.
-/

namespace ShaderLang

namespace Progress

variable {p q : Progress}

/-! ## Other reports before -/

/-- The same tables after other reports, which come first. -/
def prepend (diagnostics : List Diagnostic) (events : List Event) (p : Progress) : Progress where
  registry := p.registry
  diagnostics := diagnostics ++ p.diagnostics
  events := events ++ p.events

/-- The same tables with nothing reported. -/
def unreported (p : Progress) : Progress :=
  ⟨p.registry, [], []⟩

/-- What is reported comes back after it is taken away. -/
theorem prepend_unreported (p : Progress) :
    p.unreported.prepend p.diagnostics p.events = p := by
  simp [prepend, unreported]

variable (diagnostics : List Diagnostic) (events : List Event)

/-- Names refer to the same shaders after other reports. -/
theorem shader_prepend (p : Progress) (name : Ident) :
    (p.prepend diagnostics events).shader name = p.shader name :=
  rfl

/-- A stage is checked in the same way after other reports. -/
theorem checkStage_prepend (p : Progress) (program name : Ident) (shader : Shader)
    (expected : Stage) :
    (p.prepend diagnostics events).checkStage program name shader expected =
      (p.checkStage program name shader expected).prepend diagnostics events := by
  unfold checkStage
  split
  · rfl
  · simp [prepend]

/-- A composite is recorded in the same way after other reports. -/
theorem addComposite_prepend (p : Progress) (stage : Stage) (name : Ident)
    (inputs outputs : List Global) (down up : Ident) (downShader upShader : Shader) :
    (p.prepend diagnostics events).addComposite stage name inputs outputs down up downShader
        upShader =
      (p.addComposite stage name inputs outputs down up downShader upShader).prepend diagnostics
        events := by
  unfold addComposite
  cases Shader.compose stage downShader upShader with
  | ok shader =>
    simp only
    split
    · simp [addShader, prepend]
    · simp [addShader, prepend]
  | error mismatch => simp [prepend]

/-- A program is recorded in the same way after other reports. -/
theorem addProgram_prepend (p : Progress) (name vertexName fragmentName : Ident)
    (vertex fragment : Shader) :
    (p.prepend diagnostics events).addProgram name vertexName fragmentName vertex fragment =
      (p.addProgram name vertexName fragmentName vertex fragment).prepend diagnostics events := by
  simp only [addProgram, checkStage_prepend]
  simp [prepend]

/-- What a declaration records and reports does not depend on what was reported before. -/
theorem declare_prepend (p : Progress) (declaration : Declaration) :
    (p.prepend diagnostics events).declare declaration =
      (p.declare declaration).map (prepend diagnostics events) := by
  cases declaration with
  | uniform ty name => simp [declare, addUniform, prepend, Except.map]
  | function name params result body =>
    simp [declare, addFunction, lint, prepend, Except.map]
  | shader stage name inputs outputs body =>
    simp [declare, addShader, lint, prepend, Except.map]
  | composition stage name inputs outputs down up =>
    simp only [declare, shader_prepend, addComposite_prepend]
    cases p.shader down with
    | error fault => rfl
    | ok downShader =>
      cases p.shader up with
      | error fault => rfl
      | ok upShader => rfl
  | program name vertexName fragmentName =>
    simp only [declare, shader_prepend, addProgram_prepend]
    cases p.shader vertexName with
    | error fault => rfl
    | ok vertex =>
      cases p.shader fragmentName with
      | error fault => rfl
      | ok fragment => rfl

/-- What declarations record and report does not depend on what was reported before. -/
theorem declareAll_prepend (p : Progress) (declarations : List Declaration) :
    (p.prepend diagnostics events).declareAll declarations =
      ((p.declareAll declarations).1.prepend diagnostics events,
        (p.declareAll declarations).2) := by
  induction declarations generalizing p with
  | nil => rfl
  | cons declaration rest ih =>
    rw [declareAll, declareAll, declare_prepend]
    cases p.declare declaration with
    | error fault => rfl
    | ok p' => exact ih p'

/-- What a text records and reports does not depend on what was reported before. -/
theorem advance_prepend (p : Progress) (tokens : List Token) :
    (p.prepend diagnostics events).advance tokens =
      ((p.advance tokens).1.prepend diagnostics events, (p.advance tokens).2) := by
  simp only [advance, declareAll_prepend]

/-- What a text records and reports is what it does with nothing reported before, after all that
was. -/
theorem advance_eq (p : Progress) (tokens : List Token) :
    p.advance tokens =
      ((p.unreported.advance tokens).1.prepend p.diagnostics p.events,
        (p.unreported.advance tokens).2) := by
  rw [← advance_prepend, prepend_unreported]

/-! ## More text -/

/-- A text that can be read and recorded is recorded in the same way before any other text, which
goes on from what is recorded. -/
theorem advance_append {first : List Token} (h : p.advance first = (q, none))
    (later : List Token) : p.advance (first ++ later) = q.advance later := by
  obtain ⟨declarations, hread, hall⟩ := advance_eq_none_iff.mp h
  have happend := (Grammar.declarations_steady hread).1 later
  simp only [advance, happend, declareAll_append hall]

/-- Earlier functions, programs and diagnostics stay as they are and in front. -/
structure Extends (p q : Progress) : Prop where
  functions : p.registry.functions <+: q.registry.functions
  programs : p.registry.programs <+: q.registry.programs
  diagnostics : p.diagnostics <+: q.diagnostics

/-- Nothing is changed by nothing. -/
theorem Extends.refl (p : Progress) : p.Extends p :=
  ⟨List.prefix_rfl, List.prefix_rfl, List.prefix_rfl⟩

/-- A declaration changes nothing that is recorded or reported before. -/
theorem Extends.declare {r : Progress} (h : p.Extends q) {declaration : Declaration}
    (hdeclare : q.declare declaration = .ok r) : p.Extends r where
  functions := by
    rw [(registry_declare hdeclare).2]
    exact h.functions.trans (List.prefix_append _ _)
  programs := by
    rcases programs_declare hdeclare with ⟨_, _, _, _, _, -, -, -, hnew⟩ | ⟨-, hsame⟩
    · rw [hnew]
      exact h.programs.trans (List.prefix_append _ _)
    · rw [hsame]
      exact h.programs
  diagnostics := h.diagnostics.trans (prefix_declare hdeclare)

/-- Text that goes on changes nothing that is recorded or reported before, also if it ends in a
fault. -/
theorem extends_advance (p : Progress) (tokens : List Token) :
    p.Extends (p.advance tokens).1 :=
  declareAll_induct p.Extends (fun _ _ _ _ h hdeclare => h.declare hdeclare) (Extends.refl p)

end Progress

/-! ## Later text -/

/-- What is reported is reported at the end. -/
theorem Loaded.prefix_conclude (p : Progress) (fault : Option Fault) :
    p.diagnostics <+: (conclude p fault).diagnostics := by
  cases fault with
  | none => exact List.prefix_rfl
  | some fault => exact List.prefix_append _ _

/-- If a text can be read and recorded, no text after it changes its functions, its programs and
its diagnostics: they come first in what both texts record, in what both report, and in the module
of both texts if they load. -/
theorem extends_ofTokens_append {diagnostics : List Diagnostic} {first : List Token} {p : Progress}
    (h : Progress.ofTokens diagnostics first = (p, none)) (later : List Token) :
    p.Extends (Progress.ofTokens diagnostics (first ++ later)).1 ∧
      p.diagnostics <+: (Loaded.ofTokens diagnostics (first ++ later)).diagnostics ∧
      ∀ m, (Loaded.ofTokens diagnostics (first ++ later)).module = some m →
        p.registry.toModule.functions <+: m.functions ∧
          p.registry.toModule.programs <+: m.programs := by
  have hextends : p.Extends (Progress.ofTokens diagnostics (first ++ later)).1 := by
    rw [Progress.ofTokens, Progress.advance_append h]
    exact p.extends_advance later
  refine ⟨hextends, ?_, fun m hm => ?_⟩
  · rw [Loaded.ofTokens_eq]
    exact hextends.diagnostics.trans (Loaded.prefix_conclude _ _)
  · rw [Loaded.ofTokens_eq] at hm
    obtain ⟨-, rfl⟩ := Loaded.module_conclude_eq_some_iff.mp hm
    exact ⟨hextends.functions, hextends.programs⟩

/-- A text with a name that is not declared, and with a vertex shader used as a fragment shader. -/
def undeclaring : String :=
  "f:Int=\x7by\x7d vert v:()->()=\x7b\x7d p:Prog=mkProg v v"

/-- A text that declares the name, and the function and the program once more. -/
def declaringLate : String :=
  "uniform Int y f:Int=\x7by\x7d p:Prog=mkProg v v"

/-- The first text is recorded with two diagnostics, and both together with two functions. -/
def recordsUndeclaring : Bool :=
  match tokenize undeclaring, tokenize declaringLate with
  | .ok first, .ok later =>
    match Progress.ofTokens [] first, (Loaded.ofTokens [] (first ++ later)).module with
    | (p, none), some m => p.diagnostics.length == 2 && m.functions.length == 2
    | _, _ => false
  | _, _ => false

/-- Where `undeclaring` goes on with `declaringLate`, its function, its program and its two
diagnostics stay as they are. -/
theorem extends_undeclaring :
    ∃ first later p m, tokenize undeclaring = .ok first ∧ tokenize declaringLate = .ok later ∧
      Progress.ofTokens [] first = (p, none) ∧ p.diagnostics.length = 2 ∧
      (Loaded.ofTokens [] (first ++ later)).module = some m ∧ m.functions.length = 2 ∧
      p.diagnostics <+: (Loaded.ofTokens [] (first ++ later)).diagnostics ∧
      p.registry.toModule.functions <+: m.functions ∧
      p.registry.toModule.programs <+: m.programs := by
  have hevaluated : recordsUndeclaring = true := by decide +kernel
  unfold recordsUndeclaring at hevaluated
  split at hevaluated
  · rename_i first later hfirst hlater
    split at hevaluated
    · rename_i p m hrecorded hmodule
      simp only [Bool.and_eq_true, beq_iff_eq] at hevaluated
      obtain ⟨-, hdiagnostics, hprefix⟩ := extends_ofTokens_append hrecorded later
      exact ⟨first, later, p, m, hfirst, hlater, hrecorded, hevaluated.1, hmodule, hevaluated.2,
        hdiagnostics, hprefix m hmodule⟩
    · cases hevaluated
  · cases hevaluated

/-! ## Compositions that fail -/

/-- The text of a composition that fails is only reported. -/
theorem Progress.advance_failed_composition {p : Progress} {composition : List Token}
    {stage : Stage} {name down up : Ident} {inputs outputs : List Global}
    {downShader upShader : Shader} {mismatch : Mismatch}
    (hread : Grammar.declarations composition =
      ([.composition stage name inputs outputs down up], none))
    (hdown : p.shader down = .ok downShader) (hup : p.shader up = .ok upShader)
    (hcompose : Shader.compose stage downShader upShader = .error mismatch) :
    p.advance composition =
      (p.unreported.prepend (p.diagnostics ++ [.cannotCompose name down up mismatch])
        (p.events ++ [.compositionFailed name.text mismatch]), none) := by
  refine advance_eq_none_iff.mpr ⟨_, hread, ?_⟩
  have hfailed : p.addComposite stage name inputs outputs down up downShader upShader =
      p.unreported.prepend (p.diagnostics ++ [.cannotCompose name down up mismatch])
        (p.events ++ [.compositionFailed name.text mismatch]) := by
    simp [addComposite, hcompose, prepend, unreported]
  rw [declareAll, declare, hdown, hup, ← hfailed]
  rfl

/-- The module does not depend on what was reported before. -/
theorem Loaded.module_conclude_prepend (diagnostics : List Diagnostic) (events : List Event)
    (p : Progress) (fault : Option Fault) :
    (conclude (p.prepend diagnostics events) fault).module = (conclude p fault).module := by
  cases fault <;> rfl

/-- What was reported before comes first at the end. -/
theorem Loaded.diagnostics_conclude_prepend (diagnostics : List Diagnostic) (events : List Event)
    (p : Progress) (fault : Option Fault) :
    (conclude (p.prepend diagnostics events) fault).diagnostics =
      diagnostics ++ (conclude p fault).diagnostics := by
  cases fault with
  | none => rfl
  | some fault => exact List.append_assoc _ _ _

/-- A composition that fails leaves only its report.  Texts with and without it come to the same
fault or to the same module; and the diagnostics are the same but for one more, which stands after
those of the text before it. -/
theorem ofTokens_failed_composition {diagnostics : List Diagnostic}
    {before composition : List Token} {p : Progress} {stage : Stage} {name down up : Ident}
    {inputs outputs : List Global} {downShader upShader : Shader} {mismatch : Mismatch}
    (hbefore : Progress.ofTokens diagnostics before = (p, none))
    (hread : Grammar.declaration .origin composition =
      .ok ⟨.composition stage name inputs outputs down up, composition.length⟩)
    (hdown : p.shader down = .ok downShader) (hup : p.shader up = .ok upShader)
    (hcompose : Shader.compose stage downShader upShader = .error mismatch)
    (after : List Token) :
    (∃ (q : Progress) (fault : Option Fault),
      Progress.ofTokens diagnostics (before ++ after) =
        (q.prepend p.diagnostics p.events, fault) ∧
      Progress.ofTokens diagnostics (before ++ composition ++ after) =
        (q.prepend (p.diagnostics ++ [.cannotCompose name down up mismatch])
          (p.events ++ [.compositionFailed name.text mismatch]), fault)) ∧
    (Loaded.ofTokens diagnostics (before ++ composition ++ after)).module =
      (Loaded.ofTokens diagnostics (before ++ after)).module ∧
    ∃ later,
      (Loaded.ofTokens diagnostics (before ++ after)).diagnostics = p.diagnostics ++ later ∧
      (Loaded.ofTokens diagnostics (before ++ composition ++ after)).diagnostics =
        p.diagnostics ++ .cannotCompose name down up mismatch :: later := by
  obtain ⟨declarations, hdeclarations, -⟩ := Progress.advance_eq_none_iff.mp hbefore
  obtain ⟨hsingle, hplain⟩ := Grammar.declarations_of_declaration hread trivial
  have hfailed := Progress.advance_failed_composition hsingle hdown hup hcompose
  have hwithout := Progress.advance_append hbefore after
  rw [p.advance_eq] at hwithout
  have hinserted := Progress.advance_append hbefore (composition ++ after)
  rw [Progress.advance_append hfailed, Progress.advance_prepend, ← List.append_assoc] at hinserted
  have hstrays : Grammar.strays (before ++ composition ++ after) =
      Grammar.strays (before ++ after) := by
    rw [List.append_assoc, Grammar.strays_append hdeclarations, Grammar.strays_append hsingle,
      hplain, Option.none_or, Grammar.strays_append hdeclarations]
  refine ⟨⟨_, _, hwithout, hinserted⟩, ?_, ?_⟩
  · simp only [Loaded.ofTokens_eq, Progress.ofTokens, hwithout, hinserted, hstrays,
      Loaded.module_conclude_prepend]
  · simp only [Loaded.ofTokens_eq, Progress.ofTokens, hwithout, hinserted, hstrays,
      Loaded.diagnostics_conclude_prepend]
    exact ⟨_, rfl, List.append_assoc _ _ _⟩

/-- The composition of `v` and `w` fails, and the program is recorded without it. -/
def failsToCompose : Bool :=
  match tokenize "vert v:(Int x)->()=\x7b\x7d vert w:()->()=\x7b\x7d",
      tokenize "vert v:()->()=v.w", tokenize "p:Prog=mkProg v v" with
  | .ok before, .ok composition, .ok after =>
    match Progress.ofTokens [] before, Grammar.declaration .origin composition,
        (Loaded.ofTokens [] (before ++ after)).module with
    | (p, none), .ok ⟨.composition stage _ _ _ down up, width⟩, some m =>
      match p.shader down, p.shader up with
      | .ok downShader, .ok upShader =>
        match Shader.compose stage downShader upShader with
        | .error _ => width == composition.length &&
            m.programs.map (·.2.vertex.inputs.length) == [1]
        | .ok _ => false
      | _, _ => false
    | _, _, _ => false
  | _, _, _ => false

/-- A program after a composition that fails runs the shader that the name of the composition
referred to before. -/
theorem failed_composition_of_declared :
    ∃ before composition after p name down up mismatch m,
      tokenize "vert v:(Int x)->()=\x7b\x7d vert w:()->()=\x7b\x7d" = .ok before ∧
      tokenize "vert v:()->()=v.w" = .ok composition ∧
      tokenize "p:Prog=mkProg v v" = .ok after ∧ Progress.ofTokens [] before = (p, none) ∧
      (Loaded.ofTokens [] (before ++ composition ++ after)).module = some m ∧
      (Loaded.ofTokens [] (before ++ after)).module = some m ∧
      m.programs.map (·.2.vertex.inputs.length) = [1] ∧
      ∃ later,
        (Loaded.ofTokens [] (before ++ after)).diagnostics = p.diagnostics ++ later ∧
        (Loaded.ofTokens [] (before ++ composition ++ after)).diagnostics =
          p.diagnostics ++ .cannotCompose name down up mismatch :: later := by
  have hevaluated : failsToCompose = true := by decide +kernel
  unfold failsToCompose at hevaluated
  split at hevaluated
  · rename_i before composition after hbefore hcomposition hafter
    split at hevaluated
    · rename_i p stage name inputs outputs down up width m hrecorded hread hmodule
      split at hevaluated
      · rename_i downShader upShader hdown hup
        split at hevaluated
        · rename_i mismatch hcompose
          simp only [Bool.and_eq_true, beq_iff_eq] at hevaluated
          obtain ⟨rfl, hinputs⟩ := hevaluated
          obtain ⟨-, hsame, hdiagnostics⟩ :=
            ofTokens_failed_composition hrecorded hread hdown hup hcompose after
          exact ⟨before, composition, after, p, name, down, up, mismatch, m, hbefore, hcomposition,
            hafter, hrecorded, hsame.trans hmodule, hmodule, hinputs, hdiagnostics⟩
        · cases hevaluated
      · cases hevaluated
    · cases hevaluated
  · cases hevaluated

end ShaderLang
