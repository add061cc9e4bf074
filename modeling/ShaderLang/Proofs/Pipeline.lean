import ShaderLang.Proofs.Routing

/-!
# Runs of composites

A composite does what its two shaders do one after the other: where the first runs and the second
runs on what the first gives, the composite runs and gives the same.

Main results:

- Theorem `Connects.selfContained`: a composite stands on its own like its shaders.
- Theorems `execBlock_composite` and `exec_fedBody`: a composite executes the body of the first
  shader, then the bindings that feed the second, then its body.
- Theorem `run_composite`: a run of the first shader and a run of the second on its outputs make up
  a run of the composite.
- Theorem `run_of_compose_eq_ok`: composition preserves meaning.
-/

namespace ShaderLang

namespace Shader

/-! ## Shaders whose names do not collide -/

/-- A shader stands on its own: its inputs and outputs have different names, and its body uses only
them and global names, which are others. -/
structure SelfContained (isGlobal : String → Prop) (shader : Shader) : Prop where
  distinct : (shader.inputNames ++ shader.outputNames).Nodup
  uses : ∀ x ∈ Scope.freeInBlock shader.body,
    x ∈ shader.inputNames ∨ x ∈ shader.outputNames ∨ isGlobal x
  global : ∀ x, isGlobal x → x ∉ shader.inputNames ∧ x ∉ shader.outputNames
  isSealed : shader.body.IsSealed

/-- Two shaders can be connected: they fit, each stands on its own, no input of the first is named
like an output of the second, and no name is that of a link. -/
structure Connects (isGlobal : String → Prop) (down up : Shader) : Prop where
  fits : Fits down up
  first : up.SelfContained isGlobal
  second : down.SelfContained isGlobal
  apart : ∀ x ∈ up.inputNames, x ∉ down.outputNames
  links : ∀ i, ¬ isGlobal (Word.link i) ∧ Word.link i ∉ up.outputNames ∧
    Word.link i ∉ down.inputNames ∧ Word.link i ∉ down.outputNames

variable {isGlobal : String → Prop} {down up : Shader}

/-- A shader stands on its own beside one global name. -/
theorem SelfContained.of_global {name : String} {shader : Shader}
    (hdistinct : (shader.inputNames ++ shader.outputNames).Nodup)
    (huses : ∀ x ∈ Scope.freeInBlock shader.body,
      x ∈ shader.inputNames ∨ x ∈ shader.outputNames ∨ x = name)
    (hname : name ∉ shader.inputNames ∧ name ∉ shader.outputNames)
    (hsealed : shader.body.IsSealed) : shader.SelfContained (· = name) :=
  ⟨hdistinct, huses, by rintro x rfl; exact hname, hsealed⟩

/-- A shader stands on its own without global names. -/
theorem SelfContained.of_no_global {shader : Shader}
    (hdistinct : (shader.inputNames ++ shader.outputNames).Nodup)
    (huses : ∀ x ∈ Scope.freeInBlock shader.body, x ∈ shader.inputNames ∨ x ∈ shader.outputNames)
    (hsealed : shader.body.IsSealed) : shader.SelfContained fun _ => False :=
  ⟨hdistinct, fun x hx => (huses x hx).imp_right Or.inl, fun _ h => h.elim, hsealed⟩

/-- No input of a shader that stands on its own is named like one of its outputs. -/
theorem SelfContained.not_mem_outputNames {shader : Shader} (h : shader.SelfContained isGlobal)
    {x : String} (hx : x ∈ shader.inputNames) : x ∉ shader.outputNames := by
  intro houtput
  exact (List.nodup_append.mp h.distinct).2.2 x hx x houtput rfl

/-- A composite stands on its own. -/
theorem Connects.selfContained (h : Connects isGlobal down up) (stage : Stage) :
    (composite stage down up).SelfContained isGlobal where
  distinct := by
    refine List.nodup_append.mpr ⟨?_, ?_, ?_⟩
    · exact (List.nodup_append.mp h.first.distinct).1
    · exact (List.nodup_append.mp h.second.distinct).2.1
    · rintro x hx y hy rfl
      exact h.apart x hx hy
  uses := by
    intro x hx
    rcases mem_freeInBlock_composite h.fits hx with ⟨hfree, hnot⟩ | ⟨hfree, hnot⟩
    · rcases h.first.uses x hfree with hinput | houtput | hglobal
      · exact Or.inl hinput
      · exact absurd houtput hnot
      · exact Or.inr (Or.inr hglobal)
    · rcases h.second.uses x hfree with hinput | houtput | hglobal
      · exact absurd hinput hnot
      · exact Or.inr (Or.inl houtput)
      · exact Or.inr (Or.inr hglobal)
  global := fun x hx => ⟨(h.first.global x hx).1, (h.second.global x hx).2⟩
  isSealed := ⟨compositeStmts down up, rfl⟩

/-- The inputs and outputs of a composite and the outputs of its first shader have different
names. -/
theorem Connects.nodup_names (h : Connects isGlobal down up) :
    (up.inputNames ++ down.outputNames ++ up.outputNames).Nodup := by
  obtain ⟨hinputs, houtputs, -⟩ := List.nodup_append.mp h.first.distinct
  refine List.nodup_append.mpr ⟨List.nodup_append.mpr ⟨hinputs, ?_, ?_⟩, houtputs, ?_⟩
  · exact (List.nodup_append.mp h.second.distinct).2.1
  · rintro x hx y hy rfl
    exact h.apart x hx hy
  · rintro x hx y hy rfl
    rcases List.mem_append.mp hx with hx | hx
    · exact h.fits.notInput x hy hx
    · exact h.fits.notOutput x hy hx

end Shader

namespace Execution

open Shader

variable {V : Type} {I : Meaning V} {isGlobal : String → Prop} {down up : Shader}

/-! ## The parts of a composite -/

/-- Variables without values are bound one after the other. -/
theorem execBlock_uninit (outputs : List Global) (frame : Frame V) (outer : List (Frame V))
    (globals : Frame V) :
    execBlock I (outputs.map fun output => .uninit output.ty output.name)
        ⟨frame :: outer, globals⟩ =
      .ok ⟨((unvalued outputs).reverse ++ frame) :: outer, globals⟩ := by
  induction outputs generalizing frame with
  | nil => rfl
  | cons output outputs ih =>
    rw [List.map_cons, execBlock]
    refine (ih ((output.name, none) :: frame)).trans ?_
    simp [unvalued]

/-- A composite binds the outputs of the first shader and executes both shaders, each in a block of
its own. -/
theorem execBlock_composite (stage : Stage) (down up : Shader) (frame : Frame V)
    (outer : List (Frame V)) (globals : Frame V) :
    execBlock I (composite stage down up).body ⟨frame :: outer, globals⟩ =
      exec I (.scope up.body) ⟨((unvalued up.outputs).reverse ++ frame) :: outer, globals⟩ >>=
        exec I (.scope (fedBody down up)) := by
  have hfirst : exec I (.scope (Block.mapStmts outputToUpdate up.body)) =
      exec I (.scope up.body) := by
    funext m
    rw [exec, exec, execBlock_outputToUpdate]
  have hsecond : execBlock I [.scope (fedBody down up)] = exec I (.scope (fedBody down up)) := by
    funext m
    exact bind_pure _
  rw [composite, execBlock_ofStmts, compositeStmts, execBlock_append, execBlock_uninit]
  change exec I (.scope (Block.mapStmts outputToUpdate up.body)) _ >>=
    execBlock I [.scope (fedBody down up)] = _
  rw [hfirst, hsecond]

/-- The second block of a composite binds the inputs of the second shader and executes it. -/
theorem exec_fedBody (hsealed : down.body.IsSealed) (m : Memory V) :
    exec I (.scope (fedBody down up)) m =
      (execBlock I (rebindings up.outputs (rebound down up)) m.enter >>=
        execBlock I down.body).map Memory.leave := by
  have hbody : execBlock I (Block.stmts down.body) = execBlock I down.body :=
    funext fun m => execBlock_stmts hsealed m
  rw [exec, fedBody, execBlock_ofStmts, execBlock_append, hbody]

/-- The variables of a composite before its first shader runs: those that it starts with, and the
outputs of the first shader. -/
def linkedFrame (down up : Shader) (inputs : List V) : Frame V :=
  (unvalued up.outputs).reverse ++
    ((unvalued down.outputs).reverse ++ (valued up.inputs inputs).reverse)

/-- The variables of a composite have different names, if its inputs, its outputs and the outputs of
the first shader do. -/
theorem nodup_linkedFrame (hnodup : (up.inputNames ++ down.outputNames ++ up.outputNames).Nodup)
    (inputs : List V) : ((linkedFrame down up inputs).map Prod.fst).Nodup := by
  have hsub : ((linkedFrame down up inputs).map Prod.fst).reverse.Sublist
      (up.inputNames ++ down.outputNames ++ up.outputNames) := by
    simp only [linkedFrame, List.map_append, List.map_reverse, List.reverse_append,
      List.reverse_reverse, names_unvalued]
    exact ((names_valued_sublist up.inputs inputs).append (List.Sublist.refl _)).append
      (List.Sublist.refl _)
  exact List.nodup_reverse.mp (hnodup.sublist hsub)

/-- A name that is no output of the second shader denotes before the first shader runs what it
denotes when that shader runs alone. -/
theorem lookup_linkedFrame {x : String} (hx : x ∉ down.outputNames) (inputs : List V) :
    (linkedFrame down up inputs).lookup x = (startFrame up inputs).lookup x := by
  rw [linkedFrame, List.lookup_append, lookup_unvalued_append hx, ← List.lookup_append,
    startFrame_eq]

/-- An output of the second shader has no value before the first one runs. -/
theorem lookup_linkedFrame_output (hfits : Fits down up) {x : String} (hx : x ∈ down.outputNames)
    (inputs : List V) : (linkedFrame down up inputs).lookup x = some none := by
  have hnot : x ∉ up.outputNames := fun hmem => hfits.notOutput x hmem hx
  rw [linkedFrame, lookup_unvalued_append hnot, List.lookup_append, lookup_unvalued hx,
    Option.some_or]

/-- The first block of a composite does what the first shader does: it leaves the values of its
outputs in variables of the composite. -/
theorem exec_first (h : Connects isGlobal down up) {globals : Frame V} {inputs values : List V}
    {m : Memory V} (hbody : execBlock I up.body ⟨[startFrame up inputs], globals⟩ = .ok m)
    (hvalues : List.Forall₂ (fun output value => outputValue m output = .ok value)
      up.outputs values) :
    ∃ outer : Frame V,
      exec I (.scope up.body) ⟨[linkedFrame down up inputs], globals⟩ =
          .ok ⟨[outer], m.globals⟩ ∧
        outer.map Prod.fst = (linkedFrame down up inputs).map Prod.fst ∧
        outer.Holds up.outputs values ∧
        ∀ x ∈ down.outputNames, outer.lookup x = some none := by
  have hfree : ∀ x ∈ Scope.freeInBlock up.body, x ∉ down.outputNames := by
    intro x hx
    rcases h.first.uses x hx with hinput | houtput | hglobal
    · exact h.apart x hinput
    · exact h.fits.notOutput x houtput
    · exact (h.second.global x hglobal).2
  have hsame : ∀ x, x ∉ down.outputNames →
      (startFrame up inputs).lookup x = ([] ++ linkedFrame down up inputs).lookup x := by
    intro x hx
    rw [List.nil_append, lookup_linkedFrame hx]
  obtain ⟨locals, own, inner, outer, hframes, hrun, hown, hinner, houter, hagree, hkept⟩ :=
    execBlock_inner hfree hsame hbody
  obtain rfl : inner = [] := by simpa using hinner
  refine ⟨outer, ?_, houter, ?_, ?_⟩
  · rw [exec, Memory.enter, hrun]
    rfl
  · have hholds := (outputs_iff_holds hframes (hown ▸ nodup_startFrame h.first.distinct inputs)
      fun x hx => hown ▸ mem_startFrame_of_output hx inputs).mp hvalues
    refine hholds.congr fun x hx => ?_
    rw [hagree x (h.fits.notOutput x hx), List.nil_append]
  · intro x hx
    have hunset := hkept x (by simpa using hx)
    rwa [List.nil_append, List.nil_append, lookup_linkedFrame_output h.fits hx] at hunset

/-- An output, the input that it feeds and the value that it has stand at one place. -/
theorem exists_fed {outputs inputs : List Global} {values : List V}
    (hinputs : outputs.length = inputs.length) (hvalues : outputs.length = values.length)
    {input : Global} (hmem : input ∈ inputs) :
    ∃ output value, (output, input) ∈ outputs.zip inputs ∧ (output, value) ∈ outputs.zip values ∧
      (input, value) ∈ inputs.zip values := by
  induction outputs generalizing inputs values with
  | nil =>
    cases inputs with
    | nil => simp at hmem
    | cons => simp at hinputs
  | cons output outputs ih =>
    cases inputs with
    | nil => simp at hinputs
    | cons first inputs =>
      cases values with
      | nil => simp at hvalues
      | cons value values =>
        rcases List.mem_cons.mp hmem with rfl | hrest
        · exact ⟨output, value, by simp⟩
        · simp only [List.length_cons, Nat.add_right_cancel_iff] at hinputs hvalues
          obtain ⟨o, v, h₁, h₂, h₃⟩ := ih hinputs hvalues hrest
          exact ⟨o, v, by simp [h₁], by simp [h₂], by simp [h₃]⟩

/-- When a shader runs alone, each of its inputs denotes its value. -/
theorem lookup_startFrame_input {shader : Shader}
    (hnodup : (shader.inputNames ++ shader.outputNames).Nodup) {values : List V} {input : Global}
    {value : V} (hmem : (input, value) ∈ shader.inputs.zip values) :
    (startFrame shader values).lookup input.name = some (some value) := by
  have hinput : input.name ∈ shader.inputNames := List.mem_map_of_mem (List.of_mem_zip hmem).1
  have hnot : input.name ∉ shader.outputNames := fun houtput =>
    (List.nodup_append.mp hnodup).2.2 _ hinput _ houtput rfl
  have hvalued : ((valued shader.inputs values).map Prod.fst).Nodup :=
    (List.nodup_append.mp hnodup).1.sublist (names_valued_sublist shader.inputs values)
  rw [startFrame_eq, lookup_unvalued_append hnot, lookup_reverse hvalued,
    lookup_eq_some_iff hvalued]
  exact List.mem_map.mpr ⟨_, hmem, rfl⟩

/-- Every input of the second shader is fed by one output. -/
theorem names_zip (hfits : Fits down up) :
    (up.outputs.zip down.inputs).map (·.2.name) = down.inputNames := by
  have hsnd : (up.outputs.zip down.inputs).map Prod.snd = down.inputs :=
    List.map_snd_zip (Nat.le_of_eq hfits.length_eq.symm)
  calc (up.outputs.zip down.inputs).map (·.2.name)
      = ((up.outputs.zip down.inputs).map Prod.snd).map (·.name) := by rw [List.map_map]; rfl
    _ = down.inputNames := by rw [hsnd, inputNames]

/-- The inputs that are rebound are some of the inputs of the second shader. -/
theorem names_rebound_sublist (hfits : Fits down up) :
    ((rebound down up).map (·.2.name)).Sublist down.inputNames := by
  rw [← names_zip hfits]
  exact List.filter_sublist.map _

/-- After the rebindings an input of the second shader denotes the value of the output that feeds
it, whether it is rebound or keeps the name of that output. -/
theorem lookup_fed_input (hfits : Fits down up) (hnodup : down.inputNames.Nodup)
    (hlinks : ∀ i, Word.link i ∉ down.inputNames) {inner outer : Frame V}
    (hfeeds : Feeds (rebound down up) outer inner)
    {output input : Global} {value : V} (hmem : (output, input) ∈ up.outputs.zip down.inputs)
    (hvalue : outer.lookup output.name = some (some value)) :
    (inner ++ outer).lookup input.name = some (some value) := by
  by_cases hname : output.name = input.name
  · have hkept : input.name ∉ (rebound down up).map (·.2.name) := by
      intro hrebound
      obtain ⟨pair, hpair, hsame⟩ := List.mem_map.mp hrebound
      obtain ⟨hzip, hdiffer⟩ := List.mem_filter.mp hpair
      -- inputs have different names, so the pair that is rebound is this one
      rw [← names_zip hfits] at hnodup
      have hpair := List.inj_on_of_nodup_map hnodup hzip hmem hsame
      subst hpair
      simp [hname] at hdiffer
    have hlink : ∀ i, input.name ≠ Word.link i := fun i heq =>
      hlinks i (heq ▸ List.mem_map_of_mem (List.of_mem_zip hmem).2)
    rw [List.lookup_append, hfeeds.other _ hkept hlink, Option.none_or, ← hname, hvalue]
  · have hrebound : (output, input) ∈ rebound down up :=
      List.mem_filter.mpr ⟨hmem, by simpa using hname⟩
    rw [List.lookup_append, hfeeds.fed _ hrebound, hvalue, Option.some_or]

/-- No global name is the name of a variable that a shader starts with. -/
theorem lookup_startFrame_global {shader : Shader} (h : shader.SelfContained isGlobal) {x : String}
    (hx : isGlobal x) (inputs : List V) : (startFrame shader inputs).lookup x = none := by
  have hvalued : x ∉ (valued shader.inputs inputs).map Prod.fst := fun hmem =>
    (h.global x hx).1 ((names_valued_sublist shader.inputs inputs).subset hmem)
  rw [startFrame_eq, lookup_unvalued_append (h.global x hx).2, lookup_eq_none_iff, List.map_reverse]
  simpa using hvalued

/-- No global name is the name of a variable of the composite. -/
theorem lookup_linkedFrame_global (h : Connects isGlobal down up) {x : String} (hx : isGlobal x)
    (inputs : List V) : (linkedFrame down up inputs).lookup x = none := by
  have hstart := lookup_startFrame_global (h.selfContained .vertex) hx inputs
  rw [startFrame_eq] at hstart
  rw [linkedFrame, lookup_unvalued_append (h.first.global x hx).2]
  exact hstart

/-- The rebindings of a composite let the second shader see what it sees when it runs alone on the
values of the outputs that feed it, and hide none of its outputs. -/
theorem exists_fed_frame (h : Connects isGlobal down up) (globals : Frame V) {outer : Frame V}
    {inputs values : List V}
    (hnames : outer.map Prod.fst = (linkedFrame down up inputs).map Prod.fst)
    (hfed : outer.Holds up.outputs values)
    (hunset : ∀ x ∈ down.outputNames, outer.lookup x = some none) :
    ∃ inner : Frame V,
      execBlock I (rebindings up.outputs (rebound down up)) ⟨[[], outer], globals⟩ =
        .ok ⟨[inner, outer], globals⟩ ∧
      (∀ x ∈ down.outputNames, inner.lookup x = none) ∧
      ∀ x, (x ∈ down.inputNames ∨ x ∈ down.outputNames ∨ isGlobal x) →
        (startFrame down values).lookup x = (inner ++ outer).lookup x := by
  obtain ⟨hinputs, -, hdisjoint⟩ := List.nodup_append.mp h.second.distinct
  have hzip : ∀ pair ∈ rebound down up, pair.1 ∈ up.outputs ∧ pair.2 ∈ down.inputs :=
    fun pair hpair => List.of_mem_zip (List.mem_filter.mp hpair).1
  have hsub := names_rebound_sublist h.fits
  obtain ⟨inner, hrebind, hfeeds⟩ := execBlock_rebindings
    (fun pair hpair => (hzip pair hpair).1)
    (fun pair hpair => exists_of_forall₂ hfed (hzip pair hpair).1) (hinputs.sublist hsub)
    (fun pair hpair i =>
      ⟨fun heq => (h.links i).2.1 (heq ▸ List.mem_map_of_mem (hzip pair hpair).1),
        fun heq => (h.links i).2.2.1 (heq ▸ List.mem_map_of_mem (hzip pair hpair).2)⟩)
  have houtput : ∀ x ∈ down.outputNames, inner.lookup x = none := by
    intro x hx
    refine hfeeds.other x (fun hmem => hdisjoint x (hsub.subset hmem) x hx rfl) fun i heq => ?_
    exact (h.links i).2.2.2 (heq ▸ hx)
  refine ⟨inner, hrebind, houtput, ?_⟩
  rintro x (hx | hx | hx)
  · obtain ⟨input, hinput, rfl⟩ := List.mem_map.mp hx
    obtain ⟨hlength, hvalues⟩ := List.forall₂_iff_zip.mp hfed
    obtain ⟨output, value, hpair, hvalue, hplace⟩ := exists_fed h.fits.length_eq hlength hinput
    rw [lookup_startFrame_input h.second.distinct hplace]
    exact (lookup_fed_input h.fits hinputs (fun i => (h.links i).2.2.1) hfeeds hpair
      (hvalues hvalue)).symm
  · rw [startFrame_eq, List.lookup_append, lookup_unvalued hx, List.lookup_append, houtput x hx,
      hunset x hx]
    rfl
  · have hinner : inner.lookup x = none := by
      refine hfeeds.other x (fun hmem => (h.second.global x hx).1 (hsub.subset hmem))
        fun i heq => ?_
      exact (h.links i).1 (heq ▸ hx)
    have houter : outer.lookup x = none := by
      rw [lookup_eq_none_iff, hnames, ← lookup_eq_none_iff]
      exact lookup_linkedFrame_global h hx inputs
    rw [lookup_startFrame_global h.second hx, List.lookup_append, hinner, houter]
    rfl

/-- The second block of a composite does what the second shader does on the values that the first
one has left. -/
theorem exec_second (h : Connects isGlobal down up) {globals outer : Frame V}
    {inputs values results : List V} {m : Memory V}
    (hnames : outer.map Prod.fst = (linkedFrame down up inputs).map Prod.fst)
    (hfed : outer.Holds up.outputs values)
    (hunset : ∀ x ∈ down.outputNames, outer.lookup x = some none)
    (hbody : execBlock I down.body ⟨[startFrame down values], globals⟩ = .ok m)
    (hresults : List.Forall₂ (fun output value => outputValue m output = .ok value)
      down.outputs results) :
    ∃ outer' : Frame V,
      exec I (.scope (fedBody down up)) ⟨[outer], globals⟩ = .ok ⟨[outer'], m.globals⟩ ∧
        outer'.map Prod.fst = outer.map Prod.fst ∧ outer'.Holds down.outputs results := by
  obtain ⟨inner, hrebind, houtput, hsame⟩ :=
    exists_fed_frame (I := I) h globals hnames hfed hunset
  obtain ⟨locals, own, inner', outer', hframes, hrun, hown, hinner, houter, hagree, -⟩ :=
    execBlock_inner (fun x hx => h.second.uses x hx) hsame hbody
  refine ⟨outer', ?_, houter, ?_⟩
  · rw [exec_fedBody h.second.isSealed, Memory.enter, hrebind]
    exact map_eq_ok.mpr ⟨_, hrun, rfl⟩
  · have hholds := (outputs_iff_holds hframes (hown ▸ nodup_startFrame h.second.distinct values)
      fun x hx => hown ▸ mem_startFrame_of_output hx values).mp hresults
    refine hholds.congr fun x hx => ?_
    have hhidden : inner'.lookup x = none := by
      rw [lookup_eq_none_iff, hinner, ← lookup_eq_none_iff]
      exact houtput x hx
    rw [hagree x (Or.inr (Or.inl hx)), List.lookup_append, hhidden, Option.none_or]

/-! ## Runs -/

/-- A run of the first shader and a run of the second on its outputs make up a run of the
composite. -/
theorem run_composite (h : Connects isGlobal down up) (stage : Stage)
    {globals between after : Frame V} {inputs values results : List V}
    (hup : run I up globals inputs = .ok (values, between))
    (hdown : run I down between values = .ok (results, after)) :
    run I (composite stage down up) globals inputs = .ok (results, after) := by
  obtain ⟨m₁, hbody₁, hvalues, rfl⟩ := run_eq_ok_iff.mp hup
  obtain ⟨m₂, hbody₂, hresults, rfl⟩ := run_eq_ok_iff.mp hdown
  obtain ⟨outer, hfirst, hnames, hfed, hunset⟩ := exec_first h hbody₁ hvalues
  obtain ⟨outer', hsecond, hnames', hresults'⟩ :=
    exec_second h hnames hfed hunset hbody₂ hresults
  have hbody : execBlock I (composite stage down up).body
      ⟨[startFrame (composite stage down up) inputs], globals⟩ = .ok ⟨[outer'], m₂.globals⟩ := by
    rw [execBlock_composite, startFrame_eq]
    exact bind_eq_ok.mpr ⟨_, hfirst, hsecond⟩
  have hnodup : (outer'.map Prod.fst).Nodup := by
    rw [hnames', hnames]
    exact nodup_linkedFrame h.nodup_names inputs
  have houtputs := (@outputs_iff_holds _ [] outer' ⟨[outer'], m₂.globals⟩ _ _ rfl hnodup
    fun x hx => hresults'.mem_names hx).mpr hresults'
  exact run_eq_ok_iff.mpr ⟨_, hbody, houtputs, rfl⟩

/-! ## Examples of pipelines -/

/-- Integers with sums and products.  A loop has as many rounds as its bound says, but not more than
ten. -/
def integers : Meaning Int where
  int n := n
  bool b := if b then 1 else 0
  float _ := 0
  double _ := 0
  vector _ := none
  matrix _ := none
  array _ := none
  operator
    | .add, a, b => some (a + b)
    | .mul, a, b => some (a * b)
    | _, _, _ => none
  field _ _ := none
  index _ _ := none
  function _ _ _ := none
  truth n := some (n != 0)
  counter n := n
  enters round bound := some (decide (round < bound))
  ceiling := 10

/-- A vertex shader of some inputs, outputs and statements. -/
def vertexShader (inputs outputs : List String) (body : List Expr) : Shader where
  stage := .vertex
  inputs := inputs.map (⟨.varying, .float, ·⟩)
  outputs := outputs.map (⟨.varying, .float, ·⟩)
  body := Block.ofStmts body

/-- No link is among names that do not have the form of one. -/
theorem link_not_mem {names : List String} (h : ∀ x ∈ names, Word.isLink x = false) (i : Nat) :
    Word.link i ∉ names := by
  intro hmem
  have hlink := h _ hmem
  rw [Word.isLink_link] at hlink
  cases hlink

/-- Adds a global to its input, counts up in a loop and doubles the global. -/
def counting : Shader :=
  vertexShader ["p"] ["a", "b"]
    [.output "a" (.binary .add (.ref "p") (.ref "t")),
      .output "b" (.int 0),
      .loop (.int 3) (some "k") (Block.ofStmts
        [.mutable .int "s" (.binary .add (.ref "b") (.ref "k")), .output "b" (.ref "s")]),
      .update "t" (.binary .mul (.ref "t") (.int 2))]

/-- Joins its inputs and a global in a branch.  Its inputs have the names of the outputs of
`counting`, in the other order. -/
def joining : Shader :=
  vertexShader ["b", "a"] ["o"]
    [.branch (.ref "a")
      (Block.ofStmts [.output "o" (.binary .add (.ref "t")
        (.binary .add (.ref "a") (.binary .mul (.ref "b") (.int 10))))])
      (Block.ofStmts [.output "o" (.int 0)])]

/-- Gives one and two.  Its second output has some name. -/
def pairWriter (name : String) : Shader :=
  vertexShader [] ["a", name] [.output "a" (.int 1), .output name (.int 2)]

/-- Adds its first input and ten times its second, which has the name of the first output of
`pairWriter`. -/
def pairReader (input output : String) : Shader :=
  vertexShader [input, "a"] [output]
    [.output output (.binary .add (.ref input) (.binary .mul (.ref "a") (.int 10)))]

/-- Two shaders without global names compose and run one after the other, but their composite does
not give what the second of them gives. -/
structure Misroutes (down up : Shader) : Prop where
  first : up.SelfContained fun _ => False
  second : down.SelfContained fun _ => False
  apart : ∀ x ∈ up.inputNames, x ∉ down.outputNames
  composes : compose .vertex down up = .ok (composite .vertex down up)
  differs : ∃ values results, run integers up [] [] = .ok (values, []) ∧
    run integers down [] values = .ok (results, []) ∧
    run integers (composite .vertex down up) [] [] ≠ .ok (results, [])

/-! ## Meaning of compositions -/

/-- Composition preserves meaning: where the first shader runs, and the second runs on the outputs
of the first and the global variables that it leaves, their composite runs and gives the outputs and
the global variables of the second. -/
theorem run_of_compose_eq_ok (I : Meaning V) {stage : Stage} {c : Shader}
    (hcompose : compose stage down up = .ok c) (hup : up.SelfContained isGlobal)
    (hdown : down.SelfContained isGlobal) (hapart : ∀ x ∈ up.inputNames, x ∉ down.outputNames)
    (hglobal : ∀ i, ¬ isGlobal (Word.link i))
    (hlinks : ∀ i, Word.link i ∉ up.outputNames ++ down.inputNames ++ down.outputNames)
    {globals between after : Frame V} {inputs values results : List V}
    (hfirst : run I up globals inputs = .ok (values, between))
    (hsecond : run I down between values = .ok (results, after)) :
    run I c globals inputs = .ok (results, after) := by
  obtain ⟨hfits, rfl⟩ := compose_eq_ok_iff.mp hcompose
  have hconnects : Connects isGlobal down up :=
    ⟨hfits, hup, hdown, hapart, fun i => ⟨hglobal i, by simpa [and_assoc] using hlinks i⟩⟩
  exact run_composite hconnects stage hfirst hsecond

/-- The composite of `counting` and `joining` crosses two values and passes on a global. -/
theorem run_joining_counting :
    compose .vertex joining counting = .ok (composite .vertex joining counting) ∧
      run integers counting [("t", some 5)] [1] = .ok ([6, 3], [("t", some 10)]) ∧
      run integers joining [("t", some 10)] [6, 3] = .ok ([73], [("t", some 10)]) ∧
      run integers (composite .vertex joining counting) [("t", some 5)] [1] =
        .ok ([73], [("t", some 10)]) := by
  have hcounting : counting.SelfContained (· = "t") :=
    .of_global (by decide) (by decide +kernel) (by decide) ⟨_, rfl⟩
  have hjoining : joining.SelfContained (· = "t") :=
    .of_global (by decide) (by decide +kernel) (by decide) ⟨_, rfl⟩
  have hcompose : compose .vertex joining counting = .ok (composite .vertex joining counting) := rfl
  have hfirst : run integers counting [("t", some 5)] [1] = .ok ([6, 3], [("t", some 10)]) := rfl
  have hsecond : run integers joining [("t", some 10)] [6, 3] = .ok ([73], [("t", some 10)]) := rfl
  have hlink : ∀ i, ¬ Word.link i = "t" := fun i heq =>
    link_not_mem (by decide) i (List.mem_singleton.mpr heq)
  exact ⟨hcompose, hfirst, hsecond, run_of_compose_eq_ok integers hcompose hcounting hjoining
    (by decide) hlink (link_not_mem (by decide)) hfirst hsecond⟩

/-- Where an output of the first shader, an input of the second or an output of the second has the
name of a link, a crossing composite takes the link for it. -/
theorem misroutes_link_names :
    Misroutes (pairReader "x" "o") (pairWriter "_c0") ∧
      Misroutes (pairReader "_c1" "o") (pairWriter "b") ∧
      Misroutes (pairReader "b" "_c0") (pairWriter "b") := by
  refine ⟨?_, ?_, ?_⟩
  all_goals exact
    { first := .of_no_global (by decide) (by decide +kernel) ⟨_, rfl⟩
      second := .of_no_global (by decide) (by decide +kernel) ⟨_, rfl⟩
      apart := by decide
      composes := rfl
      differs := ⟨[1, 2], [21], rfl, rfl, by decide +kernel⟩ }

end Execution

end ShaderLang
