import ShaderLang.Proofs.Pipeline

/-!
# Composition is associative

Three shaders can be composed from the left or from the right.  One order succeeds exactly if the
other does, and the two composites take the same inputs and give the same outputs.

The composites are different trees.  Composed from the right, the variables that feed the second
shader stay bound while the third one runs; composed from the left, they are bound inside of the
block that declares the outputs of the second.  So the composites mean the same unless one of these
variables is named like an output of the second or of the third shader.

Main results:

- Theorems `Distinct.fits_left_iff` and `Distinct.fits_right_iff`: either order succeeds exactly if
  the types of neighbours agree.
- Theorems `exec_first_agree`, `exec_second_agree` and `exec_third_agree`: each of the three shaders
  runs alike in both composites.
- Theorem `run_nested`: the two composites give the same values or get stuck for the same cause.
- Theorem `compose_assoc`: the two orders of composition mean the same.
-/

namespace ShaderLang

namespace Shader

/-- Three shaders stand on their own, and the inputs of the first and the outputs of all of them
have different names. -/
structure Distinct (isGlobal : String → Prop) (a b c : Shader) : Prop where
  first : a.SelfContained isGlobal
  second : b.SelfContained isGlobal
  third : c.SelfContained isGlobal
  names : (a.inputNames ++ a.outputNames ++ b.outputNames ++ c.outputNames).Nodup
  global : ∀ i, ¬ isGlobal (Word.link i)

variable {isGlobal : String → Prop} {a b c : Shader}

/-! ## When three shaders compose -/

/-- The names of different groups differ. -/
theorem Distinct.apart_names (h : Distinct isGlobal a b c) :
    (∀ x ∈ a.outputNames, x ∉ a.inputNames) ∧ (∀ x ∈ a.outputNames, x ∉ b.outputNames) ∧
      (∀ x ∈ a.outputNames, x ∉ c.outputNames) ∧ (∀ x ∈ b.outputNames, x ∉ a.inputNames) ∧
      (∀ x ∈ b.outputNames, x ∉ c.outputNames) ∧ ∀ x ∈ a.inputNames, x ∉ c.outputNames := by
  obtain ⟨hab, -, hc⟩ := List.nodup_append.mp h.names
  obtain ⟨ha, -, hb⟩ := List.nodup_append.mp hab
  obtain ⟨-, -, ho⟩ := List.nodup_append.mp ha
  refine ⟨fun x hx hy => ?_, fun x hx hy => ?_, fun x hx hy => ?_, fun x hx hy => ?_,
    fun x hx hy => ?_, fun x hx hy => ?_⟩
  · exact ho x hy x hx rfl
  · exact hb x (List.mem_append_right _ hx) x hy rfl
  · exact hc x (List.mem_append_left _ (List.mem_append_right _ hx)) x hy rfl
  · exact hb x (List.mem_append_left _ hy) x hx rfl
  · exact hc x (List.mem_append_right _ hx) x hy rfl
  · exact hc x (List.mem_append_left _ (List.mem_append_left _ hx)) x hy rfl

/-- Composing the first two shaders before the third succeeds exactly if the types agree. -/
theorem Distinct.fits_left_iff (h : Distinct isGlobal a b c) (stage : Stage) :
    Fits b a ∧ Fits c (composite stage b a) ↔
      a.outputs.map (·.ty) = b.inputs.map (·.ty) ∧ b.outputs.map (·.ty) = c.inputs.map (·.ty) := by
  obtain ⟨haa, hab, -, hba, hbc, -⟩ := h.apart_names
  constructor
  · rintro ⟨hfirst, hsecond⟩
    exact ⟨hfirst.types, hsecond.types⟩
  · rintro ⟨hfirst, hsecond⟩
    exact ⟨⟨hfirst, haa, hab⟩, ⟨hsecond, hba, hbc⟩⟩

/-- Composing the last two shaders before the first succeeds exactly if the types agree. -/
theorem Distinct.fits_right_iff (h : Distinct isGlobal a b c) (stage : Stage) :
    Fits c b ∧ Fits (composite stage c b) a ↔
      a.outputs.map (·.ty) = b.inputs.map (·.ty) ∧ b.outputs.map (·.ty) = c.inputs.map (·.ty) := by
  obtain ⟨haa, -, hac, -, hbc, -⟩ := h.apart_names
  constructor
  · rintro ⟨hsecond, hfirst⟩
    exact ⟨hfirst.types, hsecond.types⟩
  · rintro ⟨hfirst, hsecond⟩
    have hbb : ∀ x ∈ b.outputNames, x ∉ b.inputNames := fun x hx hy =>
      h.second.not_mem_outputNames hy hx
    exact ⟨⟨hsecond, hbb, hbc⟩, ⟨hfirst, haa, hac⟩⟩

/-- Two compositions from the left succeed exactly if the shaders fit. -/
theorem compose_left_eq_ok_iff {stage : Stage} {result : Shader} :
    (do compose stage c (← compose stage b a)) = .ok result ↔
      (Fits b a ∧ Fits c (composite stage b a)) ∧
        result = composite stage c (composite stage b a) := by
  rw [bind_eq_ok]
  constructor
  · rintro ⟨ab, hab, hresult⟩
    obtain ⟨hfirst, rfl⟩ := compose_eq_ok_iff.mp hab
    obtain ⟨hsecond, rfl⟩ := compose_eq_ok_iff.mp hresult
    exact ⟨⟨hfirst, hsecond⟩, rfl⟩
  · rintro ⟨⟨hfirst, hsecond⟩, rfl⟩
    exact ⟨_, compose_eq_ok_iff.mpr ⟨hfirst, rfl⟩, compose_eq_ok_iff.mpr ⟨hsecond, rfl⟩⟩

/-- Two compositions from the right succeed exactly if the shaders fit. -/
theorem compose_right_eq_ok_iff {stage : Stage} {result : Shader} :
    (do compose stage (← compose stage c b) a) = .ok result ↔
      (Fits c b ∧ Fits (composite stage c b) a) ∧
        result = composite stage (composite stage c b) a := by
  rw [bind_eq_ok]
  constructor
  · rintro ⟨cb, hcb, hresult⟩
    obtain ⟨hfirst, rfl⟩ := compose_eq_ok_iff.mp hcb
    obtain ⟨hsecond, rfl⟩ := compose_eq_ok_iff.mp hresult
    exact ⟨⟨hfirst, hsecond⟩, rfl⟩
  · rintro ⟨⟨hfirst, hsecond⟩, rfl⟩
    exact ⟨_, compose_eq_ok_iff.mpr ⟨hfirst, rfl⟩, compose_eq_ok_iff.mpr ⟨hsecond, rfl⟩⟩

/-! ## What the composites of three shaders do -/

/-- The shaders connect when the first two are composed before the third, if no name is that of a
link. -/
theorem Distinct.connects_left (h : Distinct isGlobal a b c)
    (hlinks : ∀ i, Word.link i ∉
      a.outputNames ++ b.inputNames ++ b.outputNames ++ c.inputNames ++ c.outputNames)
    {stage : Stage} (hfits : Fits b a ∧ Fits c (composite stage b a)) :
    Connects isGlobal b a ∧ Connects isGlobal c (composite stage b a) := by
  obtain ⟨-, -, -, hba, -, hac⟩ := h.apart_names
  simp only [List.mem_append, not_or] at hlinks
  have hfirst : Connects isGlobal b a :=
    ⟨hfits.1, h.first, h.second, fun x hx hy => hba x hy hx, fun i =>
      ⟨h.global i, (hlinks i).1.1.1.1, (hlinks i).1.1.1.2, (hlinks i).1.1.2⟩⟩
  exact ⟨hfirst, ⟨hfits.2, hfirst.selfContained stage, h.third, hac, fun i =>
    ⟨h.global i, (hlinks i).1.1.2, (hlinks i).1.2, (hlinks i).2⟩⟩⟩

/-- The variables of the two composites have different names. -/
theorem Distinct.nodup_names (h : Distinct isGlobal a b c) :
    (a.inputNames ++ c.outputNames ++ a.outputNames).Nodup ∧
      (a.inputNames ++ c.outputNames ++ b.outputNames).Nodup := by
  have hswap : ∀ names : List String,
      (a.inputNames ++ c.outputNames ++ names).Perm (a.inputNames ++ names ++ c.outputNames) := by
    intro names
    rw [List.append_assoc, List.append_assoc]
    exact List.perm_append_comm.append_left _
  have hfirst : (a.inputNames ++ a.outputNames).Sublist
      (a.inputNames ++ a.outputNames ++ b.outputNames) := List.sublist_append_left _ _
  have hsecond : (a.inputNames ++ b.outputNames).Sublist
      (a.inputNames ++ a.outputNames ++ b.outputNames) :=
    (List.sublist_append_left _ _).append (List.Sublist.refl _)
  exact ⟨(hswap _).nodup_iff.mpr (h.names.sublist (hfirst.append (List.Sublist.refl _))),
    (hswap _).nodup_iff.mpr (h.names.sublist (hsecond.append (List.Sublist.refl _)))⟩

/-- What feeds the second shader has no name that is used after it, if no input of the second shader
is named like an output of the third and no output of either is named like a link. -/
theorem Distinct.not_hidden (h : Distinct isGlobal a b c)
    (hapart : ∀ x ∈ b.inputNames, x ∉ c.outputNames)
    (hlinks : ∀ i, Word.link i ∉ b.outputNames ++ c.outputNames) {e : Expr} {x : String}
    (he : e ∈ rebindings a.outputs (rebound b a)) (hbinds : e.binds? = some x) :
    x ∉ b.outputNames ∧ x ∉ c.outputNames ∧ ¬ isGlobal x := by
  rcases mem_inputNames_or_eq_link he hbinds with hinput | ⟨i, rfl⟩
  · exact ⟨h.second.not_mem_outputNames hinput, hapart x hinput,
      fun hglobal => (h.second.global x hglobal).1 hinput⟩
  · have hlink := hlinks i
    rw [List.mem_append, not_or] at hlink
    exact ⟨hlink.1, hlink.2, h.global i⟩

end Shader

namespace Execution

open Shader

variable {V : Type} {I : Meaning V} {isGlobal : String → Prop} {a b c : Shader}

/-! ## The two nestings step by step -/

/-- Composed from the left, the first two shaders are executed inside of one block. -/
theorem execBlock_nested_left (hsealed : b.body.IsSealed) (stage : Stage)
    (start globals : Frame V) :
    execBlock I (composite stage c (composite stage b a)).body ⟨[start], globals⟩ =
      exec I (.scope a.body)
          ⟨[(unvalued a.outputs).reverse, (unvalued b.outputs).reverse ++ start], globals⟩ >>=
        fun m => execBlock I (rebindings a.outputs (rebound b a)) m.enter >>=
          fun m => (execBlock I b.body m).map (·.leave.leave) >>=
            exec I (.scope (fedBody c b)) := by
  rw [execBlock_composite, exec, Memory.enter, execBlock_composite, List.append_nil, map_bind_eq,
    bind_assoc]
  refine bind_congr fun m => ?_
  rw [exec_fedBody hsealed, map_map_eq, map_bind_eq, bind_assoc]
  rfl

/-- Composed from the right, the last two shaders are executed inside of one block. -/
theorem execBlock_nested_right (stage : Stage) (start globals : Frame V) :
    execBlock I (composite stage (composite stage c b) a).body ⟨[start], globals⟩ =
      exec I (.scope a.body) ⟨[(unvalued a.outputs).reverse ++ start], globals⟩ >>=
        fun m => execBlock I (rebindings a.outputs (rebound b a)) m.enter >>=
          fun m => (execBlock I (composite stage c b).body m).map Memory.leave := by
  rw [execBlock_composite]
  refine bind_congr fun m => ?_
  rw [exec_fedBody (Block.isSealed_ofStmts _), map_bind_eq]
  rfl

/-- The variables of the two nestings after the first shader has run.  The right nesting has them in
one block; the left nesting has the outputs of the first shader in an inner block, and those of the
second, which are still without values, around it. -/
structure Halfway (a b : Shader) (start outer inner base : Frame V) : Prop where
  outerNames : outer.map Prod.fst = ((unvalued a.outputs).reverse ++ start).map Prod.fst
  innerNames : inner.map Prod.fst = a.outputNames.reverse
  baseNames : base.map Prod.fst = ((unvalued b.outputs).reverse ++ start).map Prod.fst
  lookup : ∀ x ∉ b.outputNames, outer.lookup x = (inner ++ base).lookup x
  unset : ∀ x ∈ b.outputNames, (inner ++ base).lookup x = some none

/-- The first shader runs alike in both nestings. -/
theorem exec_first_agree (h : Distinct isGlobal a b c) (start globals : Frame V) :
    Agree (fun m m' => ∃ outer inner base globals', m = ⟨[outer], globals'⟩ ∧
        m' = ⟨[inner, base], globals'⟩ ∧ Halfway a b start outer inner base)
      (exec I (.scope a.body) ⟨[(unvalued a.outputs).reverse ++ start], globals⟩)
      (exec I (.scope a.body)
        ⟨[(unvalued a.outputs).reverse, (unvalued b.outputs).reverse ++ start], globals⟩) := by
  obtain ⟨-, hab, -, hba, -, -⟩ := h.apart_names
  have hfree : ∀ x ∈ Scope.freeInBlock a.body, x ∉ b.outputNames := by
    intro x hx houtput
    rcases h.first.uses x hx with hinput | hown | hglobal
    · exact hba x houtput hinput
    · exact hab x hown houtput
    · exact (h.second.global x hglobal).2 houtput
  refine (exec_scope_agree globals hfree fun x hx => ?_).mono ?_
  · simp only [List.flatten_cons, List.flatten_nil, List.append_nil]
    rw [List.lookup_append, List.lookup_append, lookup_unvalued_append hx]
  · rintro _ _ ⟨left, right, globals', rfl, rfl, haround⟩
    obtain ⟨outer, rfl, houter⟩ := exists_of_shape_singleton haround.shapeLeft
    obtain ⟨inner, right, rfl, hinner, hright⟩ := exists_of_shape_cons haround.shapeRight
    obtain ⟨base, rfl, hbase⟩ := exists_of_shape_singleton hright
    refine ⟨outer, inner, base, globals', rfl, rfl, houter, ?_, hbase, ?_, fun x hx => ?_⟩
    · rw [hinner, List.map_reverse, names_unvalued, outputNames]
    · simpa using haround.lookup
    · have hkept := haround.kept x (not_not.mpr hx)
      have hnot : x ∉ a.outputNames := fun hmem => hab x hmem hx
      simp only [List.flatten_cons, List.flatten_nil, List.append_nil] at hkept
      rw [hkept, lookup_unvalued_append hnot, List.lookup_append, lookup_unvalued hx,
        Option.some_or]

/-- The second shader runs alike in both nestings, if none of its outputs has the name of a variable
that is bound before it. -/
theorem exec_second_agree {start outer inner base fed globals : Frame V}
    (h : Halfway a b start outer inner base) (hfed : ∀ x ∈ fed.map Prod.fst, x ∉ b.outputNames) :
    Agree (fun m m' => ∃ wide outer' base' globals', m = ⟨[wide, outer'], globals'⟩ ∧
        m' = ⟨[base'], globals'⟩ ∧
        wide.map Prod.fst = b.outputNames.reverse ++ fed.map Prod.fst ∧
        outer'.map Prod.fst = outer.map Prod.fst ∧ base'.map Prod.fst = base.map Prod.fst ∧
        ∀ x ∉ fed.map Prod.fst, x ∉ a.outputNames →
          (wide ++ outer').lookup x = base'.lookup x)
      (exec I (.scope b.body) ⟨[(unvalued b.outputs).reverse ++ fed, outer], globals⟩)
      ((execBlock I b.body ⟨[fed, inner, base], globals⟩).map (·.leave.leave)) := by
  have hsame : ∀ x, True → [[], (unvalued b.outputs).reverse ++ fed, outer].flatten.lookup x =
      [fed, inner, base].flatten.lookup x := by
    intro x _
    simp only [List.flatten_cons, List.flatten_nil, List.append_nil, List.nil_append,
      List.append_assoc]
    by_cases hx : x ∈ b.outputNames
    · have hnone : fed.lookup x = none := lookup_eq_none_iff.mpr fun hmem => hfed x hmem hx
      rw [List.lookup_append, lookup_unvalued hx, Option.some_or, List.lookup_append, hnone,
        Option.none_or, h.unset x hx]
    · rw [lookup_unvalued_append hx, List.lookup_append, List.lookup_append, h.lookup x hx]
  rw [exec]
  refine (execBlock_agree [[], (unvalued b.outputs).reverse ++ fed, outer] [fed, inner, base]
    globals (fun _ _ => trivial) hsame).map ?_
  rintro _ _ ⟨locals, left, right, globals', rfl, rfl, haround⟩
  obtain ⟨none, left, rfl, hnone, hleft⟩ := exists_of_shape_cons haround.shapeLeft
  obtain ⟨wide, left, rfl, hwide, hleft⟩ := exists_of_shape_cons hleft
  obtain ⟨outer', rfl, houter⟩ := exists_of_shape_singleton hleft
  obtain ⟨fed', right, rfl, hfed', hright⟩ := exists_of_shape_cons haround.shapeRight
  obtain ⟨inner', right, rfl, hinner, hright⟩ := exists_of_shape_cons hright
  obtain ⟨base', rfl, hbase⟩ := exists_of_shape_singleton hright
  obtain rfl := List.map_eq_nil_iff.mp hnone
  refine ⟨wide, outer', base', globals', rfl, rfl, ?_, houter, hbase, fun x hx hout => ?_⟩
  · rw [hwide, List.map_append, List.map_reverse, names_unvalued, outputNames]
  · have hlookup := haround.lookup x trivial
    have hnotFed : fed'.lookup x = none := by rwa [lookup_eq_none_iff, hfed']
    have hnotInner : inner'.lookup x = none := by
      rw [lookup_eq_none_iff, hinner, h.innerNames]
      simpa using hout
    simp only [List.flatten_cons, List.flatten_nil, List.append_nil, List.nil_append] at hlookup
    rw [hlookup, List.lookup_append, hnotFed, Option.none_or, List.lookup_append, hnotInner,
      Option.none_or]

/-- The third shader runs alike in both nestings, if no name that it uses is hidden by a variable
that is bound before the second. -/
theorem exec_third_agree (h : Distinct isGlobal a b c) (hfits : Fits c b)
    {wide outer base fed globals : Frame V}
    (hwide : wide.map Prod.fst = b.outputNames.reverse ++ fed.map Prod.fst)
    (hfed : ∀ x ∈ fed.map Prod.fst, x ∉ b.outputNames ∧ x ∉ c.outputNames ∧ ¬ isGlobal x)
    (hsame : ∀ x ∉ fed.map Prod.fst, x ∉ a.outputNames →
      (wide ++ outer).lookup x = base.lookup x) :
    Agree (fun m m' => ∃ outer' base' globals', m = ⟨[outer'], globals'⟩ ∧
        m' = ⟨[base'], globals'⟩ ∧ outer'.map Prod.fst = outer.map Prod.fst ∧
        base'.map Prod.fst = base.map Prod.fst ∧
        ∀ x ∈ c.outputNames, outer'.lookup x = base'.lookup x)
      ((exec I (.scope (fedBody c b)) ⟨[wide, outer], globals⟩).map Memory.leave)
      (exec I (.scope (fedBody c b)) ⟨[base], globals⟩) := by
  obtain ⟨-, hab, hac, -, hbc, -⟩ := h.apart_names
  have hfree : ∀ x ∈ Scope.freeInBlock (fedBody c b),
      x ∉ fed.map Prod.fst ∧ x ∉ a.outputNames := by
    intro x hx
    rcases mem_freeInBlock_fedBody hfits hx with houtput | ⟨hused, hnot⟩
    · exact ⟨fun hmem => (hfed x hmem).1 houtput, fun hmem => hab x hmem houtput⟩
    · rcases h.third.uses x hused with hinput | houtput | hglobal
      · exact absurd hinput hnot
      · exact ⟨fun hmem => (hfed x hmem).2.1 houtput, fun hmem => hac x hmem houtput⟩
      · exact ⟨fun hmem => (hfed x hmem).2.2 hglobal, (h.first.global x hglobal).2⟩
  refine (exec_scope_agree globals hfree fun x hx => ?_).map_left ?_
  · simpa using hsame x hx.1 hx.2
  · rintro _ _ ⟨left, right, globals', rfl, rfl, haround⟩
    obtain ⟨wide', left, rfl, hwide', hleft⟩ := exists_of_shape_cons haround.shapeLeft
    obtain ⟨outer', rfl, houter⟩ := exists_of_shape_singleton hleft
    obtain ⟨base', rfl, hbase⟩ := exists_of_shape_singleton haround.shapeRight
    refine ⟨outer', base', globals', rfl, rfl, houter, hbase, fun x hx => ?_⟩
    have hnone : wide'.lookup x = none := by
      rw [lookup_eq_none_iff, hwide', hwide, List.mem_append, List.mem_reverse]
      rintro (hmem | hmem)
      · exact hbc x hmem hx
      · exact (hfed x hmem).2.1 hx
    have hlookup := haround.lookup x
      ⟨fun hmem => (hfed x hmem).2.1 hx, fun hmem => hac x hmem hx⟩
    simpa [List.lookup_append, hnone] using hlookup

/-- The two nestings run alike and leave the same outputs. -/
theorem execBlock_nested_agree (h : Distinct isGlobal a b c) (hfits : Fits c b)
    (hapart : ∀ x ∈ b.inputNames, x ∉ c.outputNames)
    (hlinks : ∀ i, Word.link i ∉ b.outputNames ++ c.outputNames) (stage : Stage)
    (globals : Frame V) (inputs : List V) :
    Agree (fun m m' => m.globals = m'.globals ∧
        ∀ output ∈ c.outputs, outputValue m output = outputValue m' output)
      (execBlock I (composite stage (composite stage c b) a).body
        ⟨[(unvalued c.outputs).reverse ++ (valued a.inputs inputs).reverse], globals⟩)
      (execBlock I (composite stage c (composite stage b a)).body
        ⟨[(unvalued c.outputs).reverse ++ (valued a.inputs inputs).reverse], globals⟩) := by
  rw [execBlock_nested_left h.second.isSealed, execBlock_nested_right]
  refine (exec_first_agree h _ globals).bind ?_
  rintro _ _ ⟨outer, inner, base, globals₁, rfl, rfl, hhalf⟩
  refine (execBlock_rebinds_agree (fun e he => ?_) fun x hx => ?_).bind ?_
  · obtain ⟨-, -, rfl | ⟨-, rfl | rfl⟩⟩ := exists_eq_rebind he
    all_goals exact ⟨_, _, _, rfl⟩
  · obtain ⟨pair, hpair, rfl⟩ := mem_freeInBlock_rebindings hx
    have houtput : pair.1.name ∈ a.outputNames :=
      List.mem_map_of_mem (List.of_mem_zip (List.mem_filter.mp hpair).1).1
    simpa using hhalf.lookup _ (h.apart_names.2.1 _ houtput)
  rintro _ _ ⟨fed, rfl, rfl, hbound⟩
  have hfed : ∀ x ∈ fed.map Prod.fst, x ∉ b.outputNames ∧ x ∉ c.outputNames ∧ ¬ isGlobal x := by
    intro x hx
    obtain ⟨e, he, hbinds⟩ := hbound x hx
    exact h.not_hidden hapart hlinks he hbinds
  rw [List.append_nil, execBlock_composite, map_bind_eq]
  refine (exec_second_agree hhalf fun x hx => (hfed x hx).1).bind ?_
  rintro _ _ ⟨wide, outer', base', globals₂, rfl, rfl, hwide, houter, hbase, hlookup⟩
  refine (exec_third_agree h hfits hwide hfed hlookup).mono ?_
  rintro _ _ ⟨outer'', base'', globals₃, rfl, rfl, houter', hbase', hsame⟩
  refine ⟨rfl, fun output houtput => ?_⟩
  refine outputValue_congr ?_ ?_ (hsame _ (List.mem_map_of_mem houtput))
  · rw [houter', houter, hhalf.outerNames]
    exact nodup_linkedFrame h.nodup_names.1 inputs
  · rw [hbase', hbase, hhalf.baseNames]
    exact @nodup_linkedFrame V c (composite stage b a) h.nodup_names.2 inputs

/-- Both nestings give the same values or get stuck for the same cause, if no input of the second
shader is named like an output of the third and no output of either is named like a link. -/
theorem run_nested (h : Distinct isGlobal a b c) (hfits : Fits c b)
    (hapart : ∀ x ∈ b.inputNames, x ∉ c.outputNames)
    (hlinks : ∀ i, Word.link i ∉ b.outputNames ++ c.outputNames) (stage : Stage)
    (globals : Frame V) (inputs : List V) :
    run I (composite stage c (composite stage b a)) globals inputs =
      run I (composite stage (composite stage c b) a) globals inputs := by
  have hbodies := execBlock_nested_agree (I := I) h hfits hapart hlinks stage globals inputs
  unfold run
  rw [startFrame_eq, startFrame_eq]
  refine ((hbodies.bind ?_).eq).symm
  rintro m m' ⟨hglobals, houtputs⟩
  have hvalues : c.outputs.mapM (outputValue m) = c.outputs.mapM (outputValue m') :=
    mapM_congr houtputs
  simp only [composite, hvalues, hglobals]
  exact .refl _

/-! ## Composition in two orders -/

/-- Multiplies its input by a global. -/
def scaling : Shader :=
  vertexShader ["b"] ["r"] [.output "r" (.binary .mul (.ref "b") (.ref "t"))]

/-- Adds one. -/
def successor : Shader :=
  vertexShader ["p"] ["a"] [.output "a" (.binary .add (.ref "p") (.int 1))]

/-- Doubles its input. -/
def double : Shader :=
  vertexShader ["r"] ["u"] [.output "u" (.binary .mul (.ref "r") (.int 2))]

/-- Adds five.  Its output has some name. -/
def offset (output : String) : Shader :=
  vertexShader ["u"] [output] [.output output (.binary .add (.ref "u") (.int 5))]

/-- Gives its input and one more. -/
def spread : Shader :=
  vertexShader ["p"] ["a", "b"]
    [.output "a" (.binary .add (.ref "p") (.int 1)), .output "b" (.ref "p")]

/-- Multiplies its inputs, which have the names of the outputs of `spread`, in the other order.  Its
output has some name. -/
def product (output : String) : Shader :=
  vertexShader ["b", "a"] [output] [.output output (.binary .mul (.ref "b") (.ref "a"))]

/-- Three shaders without global names run one after the other on some inputs, and compose in both
orders. -/
structure Chained (a b c : Shader) (inputs results : List Int) : Prop where
  distinct : Distinct (fun _ => False) a b c
  runs : ∃ firsts seconds, run integers a [] inputs = .ok (firsts, []) ∧
    run integers b [] firsts = .ok (seconds, []) ∧ run integers c [] seconds = .ok (results, [])
  composesLeft : (do compose .vertex c (← compose .vertex b a)) =
    .ok (composite .vertex c (composite .vertex b a))
  composesRight : (do compose .vertex (← compose .vertex c b) a) =
    .ok (composite .vertex (composite .vertex c b) a)

/-- Composition is associative: one order succeeds exactly if the other does, and then the two
composites have the same inputs and outputs.  They give the same values and global variables or get
stuck for the same cause, if no input of the second shader is named like an output of the third and
no output of either is named like a link.  If there are no links among the names at all, the values
are those that the three shaders give one after the other. -/
theorem compose_assoc (I : Meaning V) (stage : Stage) (h : Distinct isGlobal a b c) :
    ((∃ left, (do compose stage c (← compose stage b a)) = .ok left) ↔
        ∃ right, (do compose stage (← compose stage c b) a) = .ok right) ∧
      ∀ left right, (do compose stage c (← compose stage b a)) = .ok left →
        (do compose stage (← compose stage c b) a) = .ok right →
        left.inputs = right.inputs ∧ left.outputs = right.outputs ∧
        ((∀ x ∈ b.inputNames, x ∉ c.outputNames) →
          (∀ i, Word.link i ∉ b.outputNames ++ c.outputNames) →
          ∀ (globals : Frame V) (inputs : List V),
            run I left globals inputs = run I right globals inputs) ∧
        ((∀ i, Word.link i ∉
            a.outputNames ++ b.inputNames ++ b.outputNames ++ c.inputNames ++ c.outputNames) →
          ∀ (g₀ g₁ g₂ g₃ : Frame V) (inputs firsts seconds thirds : List V),
            run I a g₀ inputs = .ok (firsts, g₁) → run I b g₁ firsts = .ok (seconds, g₂) →
            run I c g₂ seconds = .ok (thirds, g₃) → run I left g₀ inputs = .ok (thirds, g₃)) := by
  refine ⟨?_, ?_⟩
  · simp only [compose_left_eq_ok_iff, compose_right_eq_ok_iff, exists_and_left, exists_eq,
      and_true, h.fits_left_iff, h.fits_right_iff]
  · intro left right hleft hright
    obtain ⟨hfits, rfl⟩ := compose_left_eq_ok_iff.mp hleft
    obtain ⟨hfits', rfl⟩ := compose_right_eq_ok_iff.mp hright
    refine ⟨rfl, rfl, fun hapart hlinks => ?_, fun hlinks => ?_⟩
    · exact run_nested h hfits'.1 hapart hlinks stage
    · obtain ⟨hba, hcba⟩ := h.connects_left hlinks hfits
      intro g₀ g₁ g₂ g₃ inputs firsts seconds thirds hfirst hsecond hthird
      exact run_composite hcba stage (run_composite hba stage hfirst hsecond) hthird

/-- Three shaders with crossed names and a global that changes give what they give one after the
other.  Three shaders of which the first has an output named like a link do not, but both orders of
composition give the same. -/
theorem run_scaling_joining_counting :
    (Distinct (· = "t") counting joining scaling ∧
      run integers (composite .vertex scaling (composite .vertex joining counting))
          [("t", some 5)] [1] = .ok ([730], [("t", some 10)]) ∧
      run integers (composite .vertex (composite .vertex scaling joining) counting)
          [("t", some 5)] [1] = .ok ([730], [("t", some 10)])) ∧
    (Chained (pairWriter "_c0") (pairReader "x" "u") (offset "r") [] [26] ∧
      run integers (composite .vertex (composite .vertex (offset "r") (pairReader "x" "u"))
        (pairWriter "_c0")) [] [] = .ok ([16], [])) := by
  have hdistinct : Distinct (· = "t") counting joining scaling :=
    { first := .of_global (by decide) (by decide +kernel) (by decide) ⟨_, rfl⟩
      second := .of_global (by decide) (by decide +kernel) (by decide) ⟨_, rfl⟩
      third := .of_global (by decide) (by decide +kernel) (by decide) ⟨_, rfl⟩
      names := by decide
      global := fun i heq => link_not_mem (by decide) i (List.mem_singleton.mpr heq) }
  have hlinked : Distinct (fun _ => False) (pairWriter "_c0") (pairReader "x" "u") (offset "r") :=
    { first := .of_no_global (by decide) (by decide +kernel) ⟨_, rfl⟩
      second := .of_no_global (by decide) (by decide +kernel) ⟨_, rfl⟩
      third := .of_no_global (by decide) (by decide +kernel) ⟨_, rfl⟩
      names := by decide
      global := fun _ h => h }
  obtain ⟨-, -, hsame, hpipeline⟩ := (compose_assoc integers .vertex hdistinct).2
    (composite .vertex scaling (composite .vertex joining counting))
    (composite .vertex (composite .vertex scaling joining) counting) rfl rfl
  have hleft := hpipeline (link_not_mem (by decide)) [("t", some 5)] [("t", some 10)]
    [("t", some 10)] [("t", some 10)] [1] [6, 3] [73] [730] rfl rfl rfl
  obtain ⟨-, -, hlinkedSame, -⟩ := (compose_assoc integers .vertex hlinked).2
    (composite .vertex (offset "r") (composite .vertex (pairReader "x" "u") (pairWriter "_c0")))
    (composite .vertex (composite .vertex (offset "r") (pairReader "x" "u")) (pairWriter "_c0"))
    rfl rfl
  refine ⟨⟨hdistinct, hleft, ?_⟩, ⟨hlinked, ⟨[1, 2], [21], rfl, rfl, rfl⟩, rfl, rfl⟩, ?_⟩
  · exact (hsame (by decide) (link_not_mem (by decide)) _ _).symm.trans hleft
  · exact (hlinkedSame (by decide) (link_not_mem (by decide)) _ _).symm.trans rfl

/-- Where an input of the second shader is named like an output of the third, or an output of the
third like a link, the composite from the right hides that output; where an output of the second is
named like a link, the composite from the left hides it.  The two orders differ then. -/
theorem compose_not_assoc :
    (Chained successor double (offset "r") [3] [13] ∧
      run integers (composite .vertex (offset "r") (composite .vertex double successor)) [] [3] =
        .ok ([13], []) ∧
      run integers (composite .vertex (composite .vertex (offset "r") double) successor) [] [3] =
        .error (.unset "r")) ∧
    (Chained spread (product "u") (offset "_c0") [3] [17] ∧
      run integers (composite .vertex (offset "_c0") (composite .vertex (product "u") spread))
        [] [3] = .ok ([17], []) ∧
      run integers (composite .vertex (composite .vertex (offset "_c0") (product "u")) spread)
        [] [3] = .error (.unset "_c0")) ∧
    (Chained spread (product "_c0") (offset "r") [3] [17] ∧
      run integers (composite .vertex (offset "r") (composite .vertex (product "_c0") spread))
        [] [3] = .error (.unset "_c0") ∧
      run integers (composite .vertex (composite .vertex (offset "r") (product "_c0")) spread)
        [] [3] = .ok ([17], [])) := by
  refine ⟨⟨⟨⟨?_, ?_, ?_, by decide, fun _ h => h⟩, ⟨[4], [8], rfl, rfl, rfl⟩, rfl, rfl⟩, rfl, rfl⟩,
    ⟨⟨⟨?_, ?_, ?_, by decide, fun _ h => h⟩, ⟨[4, 3], [12], rfl, rfl, rfl⟩, rfl, rfl⟩, rfl, rfl⟩,
    ⟨⟨⟨?_, ?_, ?_, by decide, fun _ h => h⟩, ⟨[4, 3], [12], rfl, rfl, rfl⟩, rfl, rfl⟩, rfl, rfl⟩⟩
  all_goals exact .of_no_global (by decide) (by decide +kernel) ⟨_, rfl⟩

end Execution

end ShaderLang
