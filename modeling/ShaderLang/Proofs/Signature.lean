import ShaderLang.Proofs.Recording

/-!
# Names in the signature of a composite

A composite takes its inputs from the shader that runs first in it and its outputs from the one that
runs last.  Each of the two may have different names for all its inputs and outputs, and still an
input of the one may be named like an output of the other.

Main results:

- Theorem `Composed.ends`: any chain of compositions keeps the inputs of the shader that runs first
  and the outputs of the one that runs last.
- Theorem `composed_of_mem_shaders`: all shaders that a source records are made by such chains.
- Theorem `distinctNames_composite_iff`: the names of a composite are different exactly if no input
  of the shader that runs first is named like an output of the one that runs last.
-/

namespace ShaderLang

namespace Shader

/-- All inputs and outputs of a shader have different names. -/
def DistinctNames (shader : Shader) : Prop :=
  (shader.inputNames ++ shader.outputNames).Nodup

instance (shader : Shader) : Decidable shader.DistinctNames :=
  inferInstanceAs (Decidable (List.Nodup _))

/-- No input of one shader is named like an output of another. -/
def InputsApart (first last : Shader) : Prop :=
  ∀ x ∈ first.inputNames, x ∉ last.outputNames

instance (first last : Shader) : Decidable (InputsApart first last) :=
  inferInstanceAs (Decidable (∀ x ∈ first.inputNames, x ∉ last.outputNames))

/-! ## One composition -/

/-- The names are different exactly if those of the inputs and those of the outputs are, and no
input is named like an output. -/
theorem distinctNames_iff {shader : Shader} :
    shader.DistinctNames ↔
      shader.inputNames.Nodup ∧ shader.outputNames.Nodup ∧ InputsApart shader shader := by
  simp only [DistinctNames, InputsApart, List.nodup_append]
  constructor
  · rintro ⟨hinputs, houtputs, hapart⟩
    exact ⟨hinputs, houtputs, fun x hx hy => hapart x hx x hy rfl⟩
  · rintro ⟨hinputs, houtputs, hapart⟩
    refine ⟨hinputs, houtputs, ?_⟩
    rintro x hx y hy rfl
    exact hapart x hx hy

/-- A shader with the inputs of one shader and the outputs of another has different names exactly if
no input of the one is named like an output of the other. -/
theorem distinctNames_iff_apart {first last shader : Shader} (hfirst : first.DistinctNames)
    (hlast : last.DistinctNames) (hinputs : shader.inputs = first.inputs)
    (houtputs : shader.outputs = last.outputs) :
    shader.DistinctNames ↔ InputsApart first last := by
  have hinputNames : shader.inputNames = first.inputNames := by rw [inputNames, hinputs, inputNames]
  have houtputNames : shader.outputNames = last.outputNames := by
    rw [outputNames, houtputs, outputNames]
  obtain ⟨hfirstInputs, -, -⟩ := distinctNames_iff.mp hfirst
  obtain ⟨-, hlastOutputs, -⟩ := distinctNames_iff.mp hlast
  rw [distinctNames_iff, InputsApart, InputsApart, hinputNames, houtputNames]
  constructor
  · rintro ⟨-, -, hapart⟩
    exact hapart
  · intro hapart
    exact ⟨hfirstInputs, hlastOutputs, hapart⟩

/-! ## Chains of compositions -/

/-- `shader` is made by compositions from shaders of a kind; `first` runs first in it and `last`
runs last. -/
inductive Composed (base : Shader → Prop) : (first last shader : Shader) → Prop where
  | single {shader : Shader} (hbase : base shader) : Composed base shader shader shader
  | step {stage : Stage} {first next former last up down shader : Shader}
      (hup : Composed base first next up) (hdown : Composed base former last down)
      (hcompose : compose stage down up = .ok shader) : Composed base first last shader

variable {base : Shader → Prop} {first last shader : Shader}

/-- A chain of compositions keeps the inputs of the shader that runs first and the outputs of the
one that runs last, which are both shaders that it starts from. -/
theorem Composed.ends (h : Composed base first last shader) :
    base first ∧ base last ∧ shader.inputs = first.inputs ∧ shader.outputs = last.outputs := by
  induction h with
  | single hbase => exact ⟨hbase, hbase, rfl, rfl⟩
  | step hup hdown hcompose ihup ihdown =>
    obtain ⟨hfits, rfl⟩ := compose_eq_ok_iff.mp hcompose
    obtain ⟨hfirst, -, hinputs, -⟩ := ihup
    obtain ⟨-, hlast, -, houtputs⟩ := ihdown
    exact ⟨hfirst, hlast, hinputs, houtputs⟩

end Shader

/-! ## Recorded shaders -/

namespace Progress

open Shader

/-- A shader that one of some declarations spells out. -/
def SpelledOut (declarations : List Declaration) (shader : Shader) : Prop :=
  ∃ name, .shader shader.stage name shader.inputs shader.outputs shader.body ∈ declarations

/-- All recorded shaders are made by compositions from those that are spelled out. -/
theorem composed_of_mem_shaders (diagnostics : List Diagnostic) (declarations : List Declaration) :
    ∀ entry ∈ ((start diagnostics).declareAll declarations).1.registry.shaders,
      ∃ first last, Composed (SpelledOut declarations) first last entry.2 := by
  refine declareAll_induct (fun p => ∀ entry ∈ p.registry.shaders,
    ∃ first last, Composed (SpelledOut declarations) first last entry.2) ?_ (by simp [start])
  intro p p' declaration hmem hcomposed hdeclare entry hentry
  rcases mem_shaders_declare hdeclare hentry with
    hold | ⟨stage, name, inputs, outputs, body, rfl, rfl⟩ |
      ⟨stage, name, inputs, outputs, downName, upName, down, up, rfl, hdown, hup, hfits, rfl⟩
  · exact hcomposed entry hold
  · exact ⟨_, _, .single ⟨name, hmem⟩⟩
  · obtain ⟨downEntry, hdownEntry, rfl⟩ := mem_shaders_of_shader_eq_ok hdown
    obtain ⟨upEntry, hupEntry, rfl⟩ := mem_shaders_of_shader_eq_ok hup
    obtain ⟨first, next, hfirst⟩ := hcomposed upEntry hupEntry
    obtain ⟨former, last, hlast⟩ := hcomposed downEntry hdownEntry
    exact ⟨first, last, .step hfirst hlast (compose_eq_ok_iff.mpr ⟨hfits, rfl⟩)⟩

end Progress

namespace Shader

/-- When the names of a composite of shaders with different names are different: for one composition
exactly if no input of the first is named like an output of the second, and for any chain of
compositions exactly if no input of the shader that runs first is named like an output of the one
that runs last.  Every shader that a source records is made by such a chain from shaders that the
source spells out. -/
theorem distinctNames_composite_iff :
    (∀ stage down up c, up.DistinctNames → down.DistinctNames → compose stage down up = .ok c →
      (c.DistinctNames ↔ InputsApart up down)) ∧
    (∀ first last c, Composed DistinctNames first last c →
      (c.DistinctNames ↔ InputsApart first last)) ∧
    ∀ diagnostics declarations, (∀ shader, Progress.SpelledOut declarations shader →
      shader.DistinctNames) →
      ∀ entry ∈ ((Progress.start diagnostics).declareAll declarations).1.registry.shaders,
        ∃ first last, Composed (Progress.SpelledOut declarations) first last entry.2 ∧
          (entry.2.DistinctNames ↔ InputsApart first last) := by
  refine ⟨?_, ?_, ?_⟩
  · intro stage down up c hup hdown hcompose
    obtain ⟨-, rfl⟩ := compose_eq_ok_iff.mp hcompose
    exact distinctNames_iff_apart hup hdown rfl rfl
  · intro first last c hcomposed
    obtain ⟨hfirst, hlast, hinputs, houtputs⟩ := hcomposed.ends
    exact distinctNames_iff_apart hfirst hlast hinputs houtputs
  · intro diagnostics declarations hdistinct entry hentry
    obtain ⟨first, last, hcomposed⟩ :=
      Progress.composed_of_mem_shaders diagnostics declarations entry hentry
    obtain ⟨hfirst, hlast, hinputs, houtputs⟩ := hcomposed.ends
    exact ⟨first, last, hcomposed, distinctNames_iff_apart (hdistinct first hfirst)
      (hdistinct last hlast) hinputs houtputs⟩

/-- Copies its input under another name. -/
def copying (input output : String) : Shader where
  stage := .vertex
  inputs := [⟨.varying, .float, input⟩]
  outputs := [⟨.varying, .float, output⟩]
  body := Block.ofStmts [.output output (.ref input)]

/-- Two and three copies in a row have different names. -/
theorem distinctNames_copying_thrice :
    (copying "p" "a").DistinctNames ∧ (copying "a" "r").DistinctNames ∧
      (composite .vertex (copying "a" "r") (copying "p" "a")).DistinctNames ∧
      (composite .vertex (copying "r" "s")
        (composite .vertex (copying "a" "r") (copying "p" "a"))).DistinctNames := by
  have hup : (copying "p" "a").DistinctNames := by decide
  have hdown : (copying "a" "r").DistinctNames := by decide
  have hlast : (copying "r" "s").DistinctNames := by decide
  have htwo : Composed DistinctNames (copying "p" "a") (copying "a" "r")
      (composite .vertex (copying "a" "r") (copying "p" "a")) :=
    .step (.single hup) (.single hdown) rfl
  have htwice :=
    distinctNames_composite_iff.1 .vertex (copying "a" "r") (copying "p" "a") _ hup hdown rfl
  have hthrice := distinctNames_composite_iff.2.1 (copying "p" "a") (copying "r" "s")
    (composite .vertex (copying "r" "s") (composite .vertex (copying "a" "r") (copying "p" "a")))
    (.step htwo (.single hlast) rfl)
  exact ⟨hup, hdown, htwice.mpr (by decide), hthrice.mpr (by decide)⟩

/-- A copy and a copy back compose, and the input and the output of the composite have one name. -/
theorem not_distinctNames_copying_back :
    (copying "p" "a").DistinctNames ∧ (copying "a" "p").DistinctNames ∧
      compose .vertex (copying "a" "p") (copying "p" "a") =
        .ok (composite .vertex (copying "a" "p") (copying "p" "a")) ∧
      ¬ (composite .vertex (copying "a" "p") (copying "p" "a")).DistinctNames :=
  ⟨by decide, by decide, rfl, by decide⟩

end Shader

end ShaderLang
