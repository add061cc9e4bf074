import ShaderLang.Proofs.Recording

/-!
# Outcomes and diagnostics

Loading reports many things on its way, but it stops at the first critical diagnostic.  So whether a
source loads can be told from what is reported last, and earlier diagnostics are never touched.

Main results:

- Theorem `tolerable_declare`: recording a declaration reports nothing critical.
- Theorem `tolerable_declareAll`: recording declarations reports nothing critical, however far it
  gets.
- Theorem `diagnostics_load`: a source that loads adds no critical diagnostic, and a source that
  does not load adds just one, as the last.
-/

namespace ShaderLang

/-! ## Reports that stop nothing -/

/-- Some more diagnostics are reported after earlier ones, and none of them is critical. -/
def Tolerable (earlier later : List Diagnostic) : Prop :=
  ∃ added, later = earlier ++ added ∧ ∀ d ∈ added, d.isCritical = false

namespace Tolerable

variable {first second third : List Diagnostic}

/-- Nothing more may be reported. -/
theorem refl (first : List Diagnostic) : Tolerable first first :=
  ⟨[], by simp, by simp⟩

/-- Diagnostics that are not critical may be reported. -/
theorem append {added : List Diagnostic} (h : ∀ d ∈ added, d.isCritical = false) :
    Tolerable first (first ++ added) :=
  ⟨added, rfl, h⟩

/-- What is reported in two steps is reported in one. -/
theorem trans (h : Tolerable first second) (h' : Tolerable second third) :
    Tolerable first third := by
  rcases h with ⟨added, rfl, hadded⟩
  rcases h' with ⟨more, rfl, hmore⟩
  refine ⟨added ++ more, by simp, ?_⟩
  intro d hd
  rcases List.mem_append.mp hd with hd | hd
  · exact hadded d hd
  · exact hmore d hd

end Tolerable

namespace Progress

/-- The names that a body does not see are no critical matter. -/
theorem tolerable_lint (p : Progress) (name : Ident) (visible : List String) (body : Block) :
    Tolerable p.diagnostics (p.lint name visible body).diagnostics := by
  apply Tolerable.append
  intro d hd
  rcases List.mem_map.mp hd with ⟨missing, -, rfl⟩
  rfl

/-- A composition that fails is no critical matter. -/
theorem tolerable_addComposite (p : Progress) (stage : Stage) (name : Ident)
    (inputs outputs : List Global) (down up : Ident) (downShader upShader : Shader) :
    Tolerable p.diagnostics
      (p.addComposite stage name inputs outputs down up downShader upShader).diagnostics := by
  rcases addComposite_cases p stage name inputs outputs down up downShader upShader with
    ⟨shader, -, -, hsame⟩ | ⟨mismatch, -, -, hmore⟩
  · rw [hsame]
    exact Tolerable.refl p.diagnostics
  · rw [hmore]
    apply Tolerable.append
    simp [Diagnostic.isCritical]

/-- A shader of the wrong stage is no critical matter. -/
theorem tolerable_checkStage (p : Progress) (program name : Ident) (shader : Shader)
    (expected : Stage) :
    Tolerable p.diagnostics (p.checkStage program name shader expected).diagnostics := by
  unfold checkStage
  by_cases hstage : shader.stage = expected
  · rw [if_pos hstage]
    exact Tolerable.refl p.diagnostics
  · rw [if_neg hstage]
    apply Tolerable.append
    simp [Diagnostic.isCritical]

/-- Recording a declaration reports nothing critical. -/
theorem tolerable_declare {p p' : Progress} {declaration : Declaration}
    (h : p.declare declaration = .ok p') : Tolerable p.diagnostics p'.diagnostics := by
  cases declaration with
  | uniform ty name =>
    cases h
    exact Tolerable.refl p.diagnostics
  | function name params result body =>
    cases h
    exact tolerable_lint p name _ body
  | shader stage name inputs outputs body =>
    cases h
    exact tolerable_lint p name _ body
  | composition stage name inputs outputs down up =>
    rcases declare_composition_eq_ok h with ⟨downShader, upShader, -, -, rfl⟩
    exact tolerable_addComposite p stage name inputs outputs down up downShader upShader
  | program name vertexName fragmentName =>
    rcases declare_program_eq_ok h with ⟨vertex, fragment, -, -, rfl⟩
    exact (tolerable_checkStage p name vertexName vertex .vertex).trans
      (tolerable_checkStage _ name fragmentName fragment .fragment)

/-- Recording declarations reports nothing critical, however far it gets. -/
theorem tolerable_declareAll (p : Progress) (declarations : List Declaration) :
    Tolerable p.diagnostics (p.declareAll declarations).1.diagnostics := by
  apply declareAll_induct fun q => Tolerable p.diagnostics q.diagnostics
  · intro q q' declaration _ hq hdeclare
    exact hq.trans (tolerable_declare hdeclare)
  · exact Tolerable.refl p.diagnostics

end Progress

/-! ## Outcomes -/

namespace Loaded

/-- An outcome agrees with what is reported after some earlier diagnostics: with a module nothing
critical is reported, and without one a single critical diagnostic, as the last. -/
def Agrees (earlier : List Diagnostic) (loaded : Loaded) : Prop :=
  ∃ added, loaded.diagnostics = earlier ++ added ∧
    (loaded.module ≠ none → ∀ d ∈ added, d.isCritical = false) ∧
    (loaded.module = none → ∃ before last, added = before ++ [last] ∧ last.isCritical = true ∧
      ∀ d ∈ before, d.isCritical = false)

/-- Loading that ends at a critical diagnostic agrees with what was reported before. -/
theorem agrees_failed {earlier : List Diagnostic} {p : Progress} {diagnostic : Diagnostic}
    (hp : Tolerable earlier p.diagnostics) (hcritical : diagnostic.isCritical = true) :
    Agrees earlier (failed p diagnostic) := by
  rcases hp with ⟨added, hadded, hmild⟩
  refine ⟨added ++ [diagnostic], ?_, fun hsome => absurd rfl hsome, fun _ => ?_⟩
  · rw [failed, hadded, List.append_assoc]
  · exact ⟨added, diagnostic, rfl, hcritical, hmild⟩

/-- Loading that has come to a fault, or to its end, agrees with what was reported before. -/
theorem agrees_conclude {earlier : List Diagnostic} {p : Progress}
    (hp : Tolerable earlier p.diagnostics) (fault : Option Fault) :
    Agrees earlier (conclude p fault) := by
  cases fault with
  | some fault => exact agrees_failed hp rfl
  | none =>
    rcases hp with ⟨added, hadded, hmild⟩
    refine ⟨added, hadded, fun _ => hmild, fun hnone => ?_⟩
    cases hnone

/-- Loading tokens agrees with what is reported. -/
theorem agrees_ofTokens (earlier : List Diagnostic) (tokens : List Token) :
    Agrees earlier (ofTokens earlier tokens) := by
  rw [ofTokens_eq]
  apply agrees_conclude
  exact Progress.tolerable_declareAll (.start earlier) (Grammar.declarations tokens).1

end Loaded

/-- Earlier diagnostics stay in front.  If a source loads, no diagnostic that is added to them is
critical; if it does not load, just one of them is, and it is the last. -/
theorem diagnostics_load (earlier : List Diagnostic) (source : List Char) :
    Loaded.Agrees earlier (load earlier source) := by
  unfold load
  split
  · exact Loaded.agrees_failed (Tolerable.refl earlier) rfl
  · split
    · exact Loaded.agrees_failed (Tolerable.refl earlier) rfl
    · exact Loaded.agrees_ofTokens earlier _

end ShaderLang
