import ShaderLang.Composition
import ShaderLang.Proofs.FreeNames

/-!
# Composites

When two shaders compose, and what their composite is: the outputs of the first are variables of the
composite, its body runs in a block of its own, and in a second block the inputs of the second are
bound before its body runs.

Main results:

- Theorem `compose_eq_ok_iff`: two shaders compose exactly if they fit, and the composite is the one
  that `composite` spells out.
- Theorem `mem_freeInBlock_composite`: a composite uses only what the first shader uses beside its
  outputs, and what the second uses beside its inputs.
-/

namespace ShaderLang

/-- A block has one end marker, after its statements. -/
def Block.IsSealed (block : Block) : Prop :=
  ∃ exprs, block = Block.ofStmts exprs

/-- A block of statements is sealed. -/
theorem Block.isSealed_ofStmts (exprs : List Expr) : (Block.ofStmts exprs).IsSealed :=
  ⟨exprs, rfl⟩

/-- A sealed block that has no statements is an end marker. -/
theorem Block.IsSealed.eq_done {block : Block} (h : block.IsSealed) (hnone : block.hasNone = true) :
    block = [.done] := by
  obtain ⟨exprs, rfl⟩ := h
  have hempty : exprs.filter (!·.isDone) = [] := by
    simpa [List.filter_eq_nil_iff] using (hasNone_ofStmts_iff exprs).mp hnone
  rw [ofStmts, hempty, List.nil_append]

namespace Shader

/-- The names of the inputs. -/
def inputNames (shader : Shader) : List String :=
  shader.inputs.map (·.name)

/-- The names of the outputs. -/
def outputNames (shader : Shader) : List String :=
  shader.outputs.map (·.name)

/-! ## When two shaders compose -/

/-- The outputs of the first shader can feed the inputs of the second: they have the same types in
the same order, and none of them hides an input of the first or an output of the second. -/
structure Fits (down up : Shader) : Prop where
  types : up.outputs.map (·.ty) = down.inputs.map (·.ty)
  notInput : ∀ x ∈ up.outputNames, x ∉ up.inputNames
  notOutput : ∀ x ∈ up.outputNames, x ∉ down.outputNames

/-- As many outputs are fed as inputs are taken. -/
theorem Fits.length_eq {down up : Shader} (hfits : Fits down up) :
    up.outputs.length = down.inputs.length := by
  simpa using congrArg List.length hfits.types

/-- The pairs of an output and the input it feeds that have different names. -/
def rebound (down up : Shader) : List (Global × Global) :=
  (up.outputs.zip down.inputs).filter fun (output, input) => output.name != input.name

/-- The second block of a composite: its inputs are bound, then the second shader runs. -/
def fedBody (down up : Shader) : Block :=
  Block.ofStmts (rebindings up.outputs (rebound down up) ++ Block.stmts down.body)

/-- The statements of a composite. -/
def compositeStmts (down up : Shader) : List Expr :=
  up.outputs.map (fun output => .uninit output.ty output.name) ++
    [.scope (Block.mapStmts outputToUpdate up.body), .scope (fedBody down up)]

/-- The composite of two shaders that fit. -/
def composite (stage : Stage) (down up : Shader) : Shader where
  stage := stage
  inputs := up.inputs
  outputs := down.outputs
  body := Block.ofStmts (compositeStmts down up)

/-- No pair is reported exactly if the types of all pairs agree. -/
theorem typeMismatch?_eq_none_iff {pairs : List (Global × Global)} {index : Nat} :
    typeMismatch? index pairs = none ↔ ∀ pair ∈ pairs, pair.1.ty = pair.2.ty := by
  induction pairs generalizing index with
  | nil => simp [typeMismatch?]
  | cons pair pairs ih =>
    obtain ⟨output, input⟩ := pair
    rw [typeMismatch?, List.forall_mem_cons]
    split
    · rename_i hsame
      simp [ih, hsame]
    · rename_i hdiffer
      simp [hdiffer]

/-- Of two lists of one length, each item of the second is paired with one of the first. -/
theorem exists_mem_zip {outputs inputs : List Global} (hlength : outputs.length = inputs.length)
    {input : Global} (hinput : input ∈ inputs) :
    ∃ output, (output, input) ∈ outputs.zip inputs := by
  have hinput : input ∈ (outputs.zip inputs).map Prod.snd := by
    rwa [List.map_snd_zip (by omega)]
  obtain ⟨⟨output, other⟩, hmem, rfl⟩ := List.mem_map.mp hinput
  exact ⟨output, hmem⟩

/-- Lists of one length agree in their types exactly if they agree pair by pair. -/
theorem map_ty_eq_iff {outputs inputs : List Global} (hlength : outputs.length = inputs.length) :
    outputs.map (·.ty) = inputs.map (·.ty) ↔
      ∀ pair ∈ outputs.zip inputs, pair.1.ty = pair.2.ty := by
  induction outputs generalizing inputs with
  | nil => cases inputs <;> simp_all
  | cons output outputs ih =>
    cases inputs with
    | nil => simp at hlength
    | cons input inputs =>
      simp only [List.length_cons, Nat.add_right_cancel_iff] at hlength
      simp [ih hlength]

/-- No output is reported exactly if none hides an input of the first shader or an output of the
second. -/
theorem find?_shadowing_eq_none_iff {down up : Shader} :
    (up.outputs.find? fun output =>
        (up.inputs ++ down.outputs).any (·.name == output.name)) = none ↔
      (∀ x ∈ up.outputNames, x ∉ up.inputNames) ∧ (∀ x ∈ up.outputNames, x ∉ down.outputNames) := by
  simp only [List.find?_eq_none, List.any_eq_true, beq_iff_eq, not_exists, not_and, outputNames,
    inputNames, List.mem_append, List.mem_map, forall_exists_index, and_imp,
    forall_apply_eq_imp_iff₂]
  constructor
  · intro h
    exact ⟨fun output houtput input hinput => h output houtput input (Or.inl hinput),
      fun output houtput other hother => h output houtput other (Or.inr hother)⟩
  · rintro ⟨hinputs, houtputs⟩ output houtput other (hother | hother)
    · exact hinputs output houtput other hother
    · exact houtputs output houtput other hother

/-- Two shaders compose exactly if they fit, and there is one composite. -/
theorem compose_eq_ok_iff {stage : Stage} {down up c : Shader} :
    compose stage down up = .ok c ↔ Fits down up ∧ c = composite stage down up := by
  unfold compose
  by_cases hlength : up.outputs.length = down.inputs.length
  · rw [if_neg (by simpa using hlength)]
    simp only
    split
    · rename_i mismatch htypes
      have hdiffer : ¬ up.outputs.map (·.ty) = down.inputs.map (·.ty) := by
        rw [map_ty_eq_iff hlength, ← @typeMismatch?_eq_none_iff _ 0, htypes]
        simp
      constructor
      · intro h
        cases h
      · rintro ⟨hfits, -⟩
        exact absurd hfits.types hdiffer
    · rename_i htypes
      have hsame := (map_ty_eq_iff hlength).mpr (typeMismatch?_eq_none_iff.mp htypes)
      split
      · rename_i output hfound
        constructor
        · intro h
          cases h
        · rintro ⟨hfits, -⟩
          have hnone := find?_shadowing_eq_none_iff.mpr ⟨hfits.notInput, hfits.notOutput⟩
          rw [hnone] at hfound
          cases hfound
      · rename_i hfound
        obtain ⟨hinput, houtput⟩ := find?_shadowing_eq_none_iff.mp hfound
        constructor
        · intro h
          cases h
          exact ⟨⟨hsame, hinput, houtput⟩, rfl⟩
        · rintro ⟨-, rfl⟩
          rfl
  · rw [if_pos (by simpa using hlength)]
    constructor
    · intro h
      cases h
    · rintro ⟨hfits, -⟩
      exact absurd hfits.length_eq hlength

/-! ## What a composite binds and uses -/

section Rebinding

variable {α : Type} {name source : α → String} {ty : α → Ty}

/-- Rebindings use only what they read. -/
theorem mem_freeInBlock_map_rebind {items : List α} {x : String}
    (h : x ∈ Scope.freeInBlock (items.map fun a => rebind (name a) (ty a) (source a))) :
    ∃ a ∈ items, source a = x := by
  induction items with
  | nil => simp [Scope.freeInBlock] at h
  | cons a items ih =>
    rw [List.map_cons, Scope.mem_freeInBlock_cons] at h
    rcases h with hfirst | ⟨hrest, -⟩
    · simp only [rebind, Scope.freeInStmt, Scope.freeInExpr, List.mem_singleton] at hfirst
      exact ⟨a, List.mem_cons_self, hfirst.symm⟩
    · obtain ⟨b, hb, hsource⟩ := ih hrest
      exact ⟨b, List.mem_cons_of_mem a hb, hsource⟩

end Rebinding

/-- A rebinding of a composite binds an input to its output.  Where links stand between the two, it
binds a link to the output or the input to a link. -/
theorem exists_eq_rebind {outputs : List Global} {pairs : List (Global × Global)} {e : Expr}
    (h : e ∈ rebindings outputs pairs) :
    ∃ pair ∈ pairs, e = rebind pair.2.name pair.2.ty pair.1.name ∨
      ∃ i, e = rebind (Word.link i) pair.1.ty pair.1.name ∨
        e = rebind pair.2.name pair.2.ty (Word.link i) := by
  unfold rebindings at h
  split at h
  · rcases List.mem_append.mp h with hlink | hinput
    · obtain ⟨⟨pair, i⟩, hmem, rfl⟩ := List.mem_map.mp hlink
      exact ⟨pair, List.fst_mem_of_mem_zipIdx hmem, .inr ⟨i, .inl rfl⟩⟩
    · obtain ⟨⟨pair, i⟩, hmem, rfl⟩ := List.mem_map.mp hinput
      exact ⟨pair, List.fst_mem_of_mem_zipIdx hmem, .inr ⟨i, .inr rfl⟩⟩
  · obtain ⟨pair, hmem, rfl⟩ := List.mem_map.mp h
    exact ⟨pair, hmem, .inl rfl⟩

/-- The rebindings of a composite bind only inputs of the second shader and links. -/
theorem mem_inputNames_or_eq_link {down up : Shader} {e : Expr} {x : String}
    (he : e ∈ rebindings up.outputs (rebound down up)) (hx : e.binds? = some x) :
    x ∈ down.inputNames ∨ ∃ i, x = Word.link i := by
  obtain ⟨pair, hpair, hrebind⟩ := exists_eq_rebind he
  have hinput : pair.2.name ∈ down.inputNames :=
    List.mem_map_of_mem (List.of_mem_zip (List.mem_filter.mp hpair).1).2
  obtain rfl | ⟨i, rfl | rfl⟩ := hrebind
  · exact Or.inl (Option.some.inj hx ▸ hinput)
  · exact Or.inr ⟨i, (Option.some.inj hx).symm⟩
  · exact Or.inl (Option.some.inj hx ▸ hinput)

/-- The rebindings of a composite read only outputs of the first shader. -/
theorem mem_freeInBlock_rebindings {outputs : List Global} {pairs : List (Global × Global)}
    {x : String} (h : x ∈ Scope.freeInBlock (rebindings outputs pairs)) :
    ∃ pair ∈ pairs, pair.1.name = x := by
  unfold rebindings at h
  split at h
  · rw [Scope.mem_freeInBlock_append] at h
    rcases h with hlinks | ⟨hinputs, hbound⟩
    · obtain ⟨⟨pair, i⟩, hmem, rfl⟩ := mem_freeInBlock_map_rebind hlinks
      exact ⟨pair, List.fst_mem_of_mem_zipIdx hmem, rfl⟩
    · -- an input reads a link, and the links are bound before the inputs
      obtain ⟨⟨pair, i⟩, hmem, rfl⟩ := mem_freeInBlock_map_rebind hinputs
      exact absurd rfl (hbound _ (List.mem_map_of_mem hmem))
  · obtain ⟨pair, hmem, rfl⟩ := mem_freeInBlock_map_rebind h
    exact ⟨pair, hmem, rfl⟩

/-- Every input of another name than its output is bound. -/
theorem exists_binds?_rebindings {outputs : List Global} {pairs : List (Global × Global)}
    {pair : Global × Global} (hpair : pair ∈ pairs) :
    ∃ e ∈ rebindings outputs pairs, e.binds? = some pair.2.name := by
  unfold rebindings
  split
  · obtain ⟨i, hi⟩ := List.mem_iff_getElem?.mp hpair
    have hmem : (pair, i) ∈ pairs.zipIdx := List.mem_zipIdx_iff_getElem?.mpr hi
    exact ⟨rebind pair.2.name pair.2.ty (Word.link i),
      List.mem_append_right _ (List.mem_map.mpr ⟨(pair, i), hmem, rfl⟩), rfl⟩
  · exact ⟨rebind pair.2.name pair.2.ty pair.1.name, List.mem_map.mpr ⟨pair, hpair, rfl⟩, rfl⟩

/-- What the second block of a composite uses is an output of the first shader, or it is used by the
second shader and is none of its inputs. -/
theorem mem_freeInBlock_fedBody {down up : Shader} (hfits : Fits down up) {x : String}
    (h : x ∈ Scope.freeInBlock (fedBody down up)) :
    x ∈ up.outputNames ∨ (x ∈ Scope.freeInBlock down.body ∧ x ∉ down.inputNames) := by
  rw [fedBody, Scope.mem_freeInBlock_ofStmts, Scope.mem_freeInBlock_append] at h
  rcases h with hread | ⟨hused, hbound⟩
  · obtain ⟨pair, hpair, rfl⟩ := mem_freeInBlock_rebindings hread
    have hzip := (List.mem_filter.mp hpair).1
    exact Or.inl (List.mem_map_of_mem (List.of_mem_zip hzip).1)
  · refine or_iff_not_imp_left.mpr fun houtput => ?_
    refine ⟨Scope.mem_freeInBlock_of_mem_stmts hused, fun hx => ?_⟩
    obtain ⟨input, hinput, rfl⟩ := List.mem_map.mp hx
    obtain ⟨output, hpair⟩ := exists_mem_zip hfits.length_eq hinput
    -- an input that keeps the name of its output is that output; every other one is rebound
    by_cases hname : output.name = input.name
    · exact houtput (hname ▸ List.mem_map_of_mem (List.of_mem_zip hpair).1)
    · have hrebound : (output, input) ∈ rebound down up :=
        List.mem_filter.mpr ⟨hpair, by simpa using hname⟩
      obtain ⟨e, he, hbinds⟩ := exists_binds?_rebindings hrebound
      exact hbound e he hbinds

/-- Assigning a variable in place of an output uses the same names. -/
theorem mem_freeInBlock_outputToUpdate {x : String} {body : Block} :
    x ∈ Scope.freeInBlock (Block.mapStmts outputToUpdate body) ↔ x ∈ Scope.freeInBlock body := by
  rw [Block.mapStmts, Scope.mem_freeInBlock_ofStmts]
  refine Scope.mem_freeInBlock_mapEach (fun e => ?_) (fun e => ?_) body
  · cases e <;> rfl
  · cases e <;> rfl

/-- A composite uses only what the first shader uses beside its outputs, and what the second uses
beside its inputs. -/
theorem mem_freeInBlock_composite {stage : Stage} {down up : Shader} (hfits : Fits down up)
    {x : String} (h : x ∈ Scope.freeInBlock (composite stage down up).body) :
    (x ∈ Scope.freeInBlock up.body ∧ x ∉ up.outputNames) ∨
      (x ∈ Scope.freeInBlock down.body ∧ x ∉ down.inputNames) := by
  simp only [composite, compositeStmts, Scope.mem_freeInBlock_ofStmts,
    Scope.mem_freeInBlock_append] at h
  rcases h with hlocals | ⟨hscopes, hbound⟩
  · -- a variable without a value uses nothing
    have hnone : ∀ outputs : List Global,
        x ∉ Scope.freeInBlock (outputs.map fun output => .uninit output.ty output.name) := by
      intro outputs
      induction outputs with
      | nil => simp [Scope.freeInBlock]
      | cons output outputs ih => simp [Scope.freeInBlock, ih]
    exact absurd hlocals (hnone up.outputs)
  · have houtput : x ∉ up.outputNames := by
      intro hx
      obtain ⟨output, hmem, rfl⟩ := List.mem_map.mp hx
      exact hbound _ (List.mem_map_of_mem hmem) rfl
    simp only [Scope.freeInBlock, Scope.freeInExpr, List.append_nil, List.mem_append,
      mem_freeInBlock_outputToUpdate] at hscopes
    rcases hscopes with hup | hdown
    · exact Or.inl ⟨hup, houtput⟩
    · exact Or.inr ((mem_freeInBlock_fedBody hfits hdown).resolve_left houtput)

end Shader

end ShaderLang
