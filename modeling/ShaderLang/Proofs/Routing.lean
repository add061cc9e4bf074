import Mathlib.Data.List.Nodup
import ShaderLang.Proofs.Composite
import ShaderLang.Proofs.Simulation

/-!
# Routing of values

How values come into a shader and out of it: the variables that a run starts with, the bindings that
feed the inputs of the second shader of a composite, and the variables that the outputs are read
from.

Main results:

- Theorem `execBlock_outputToUpdate`: a body that assigns variables in place of outputs does the
  same.
- Theorem `execBlock_rebindings`: before the second shader runs, each of its inputs that is rebound
  denotes the value of the output that feeds it.
- Theorem `execBlock_rebinds_agree`: bindings of inputs bind the same values over different
  variables.
- Theorem `outputs_iff_holds`: the outputs have the values that the frame around a body holds.
- Theorem `run_eq_ok_iff`: a run executes the body and reads the outputs.
-/

namespace ShaderLang

namespace Execution

variable {V : Type} {I : Meaning V}

/-! ## Sequences of statements -/

/-- Statements are executed one part after the other. -/
theorem execBlock_append (first rest : List Expr) (m : Memory V) :
    execBlock I (first ++ rest) m = execBlock I first m >>= execBlock I rest := by
  induction first generalizing m with
  | nil => rfl
  | cons e first ih =>
    simp only [List.cons_append, execBlock, ih, bind_assoc]

/-- End markers do nothing. -/
theorem execBlock_filter_isDone (exprs : List Expr) (m : Memory V) :
    execBlock I (exprs.filter (!·.isDone)) m = execBlock I exprs m := by
  induction exprs generalizing m with
  | nil => rfl
  | cons e exprs ih =>
    cases hdone : e.isDone with
    | true =>
      obtain rfl := Expr.isDone_iff.mp hdone
      exact ih m
    | false =>
      rw [List.filter_cons_of_pos (by simp [hdone])]
      simp only [execBlock, ih]

/-- A block does what its statements do. -/
@[simp]
theorem execBlock_ofStmts (exprs : List Expr) (m : Memory V) :
    execBlock I (Block.ofStmts exprs) m = execBlock I exprs m := by
  rw [Block.ofStmts, execBlock_append, execBlock_filter_isDone]
  exact bind_pure _

/-- The statements of a block without its end marker do what the block does. -/
theorem execBlock_stmts {block : Block} (hsealed : block.IsSealed) (m : Memory V) :
    execBlock I (Block.stmts block) m = execBlock I block m := by
  obtain ⟨exprs, rfl⟩ := hsealed
  rw [Block.stmts_ofStmts, execBlock_filter_isDone, execBlock_ofStmts]

mutual

/-- Changing a statement changes nothing it does, if the change of a single node does not. -/
theorem exec_mapStmt {f : Expr → Expr} (hf : ∀ e m, exec I (f e) m = exec I e m) (e : Expr)
    (m : Memory V) : exec I (Block.mapStmt f e) m = exec I e m := by
  cases e with
  | branch cond yes no =>
    simp only [Block.mapStmt, exec, execBlock_ofStmts, execBlock_mapEach hf yes,
      execBlock_mapEach hf no]
  | loop bound counter body =>
    simp only [Block.mapStmt, exec, execBlock_ofStmts, execBlock_mapEach hf body]
  | scope body => simp only [Block.mapStmt, exec, execBlock_ofStmts, execBlock_mapEach hf body]
  | _ => exact hf _ m

/-- Changing each statement changes nothing that they do. -/
theorem execBlock_mapEach {f : Expr → Expr} (hf : ∀ e m, exec I (f e) m = exec I e m)
    (es : List Expr) (m : Memory V) : execBlock I (Block.mapEach f es) m = execBlock I es m := by
  cases es with
  | nil => rfl
  | cons e es =>
    have hrest : execBlock I (Block.mapEach f es) = execBlock I es :=
      funext fun m => execBlock_mapEach hf es m
    simp only [Block.mapEach, execBlock, exec_mapStmt hf e, hrest]

end

/-- A body that assigns variables in place of outputs does the same. -/
theorem execBlock_outputToUpdate (body : Block) (m : Memory V) :
    execBlock I (Block.mapStmts Shader.outputToUpdate body) m = execBlock I body m := by
  rw [Block.mapStmts, execBlock_ofStmts]
  refine execBlock_mapEach (fun e m => ?_) body m
  cases e <;> rfl

/-! ## Variables of different names -/

/-- A name is found in a frame exactly if it is the name of a variable. -/
theorem lookup_eq_none_iff {frame : Frame V} {x : String} :
    frame.lookup x = none ↔ x ∉ frame.map Prod.fst := by
  simpa [shape] using @Twin.lookup_eq_none_iff _ [frame] x

/-- Where the names differ, each variable is the one that its name denotes. -/
theorem lookup_eq_some_iff {frame : Frame V} (hnodup : (frame.map Prod.fst).Nodup) {x : String}
    {value : Option V} : frame.lookup x = some value ↔ (x, value) ∈ frame := by
  induction frame with
  | nil => simp
  | cons pair frame ih =>
    obtain ⟨name, old⟩ := pair
    rw [List.map_cons, List.nodup_cons] at hnodup
    by_cases hname : x = name
    · subst hname
      have hnone : (x, value) ∉ frame := fun hmem => hnodup.1 (List.mem_map.mpr ⟨_, hmem, rfl⟩)
      simp [hnone, eq_comm]
    · have hne : (x == name) = false := by simpa using hname
      simp [List.lookup_cons, hne, hname, ih hnodup.2]

/-- Where the names differ, the order of the variables does not matter. -/
theorem lookup_reverse {frame : Frame V} (hnodup : (frame.map Prod.fst).Nodup) (x : String) :
    frame.reverse.lookup x = frame.lookup x := by
  have hreverse : (frame.reverse.map Prod.fst).Nodup := by
    rwa [List.map_reverse, List.nodup_reverse]
  refine Option.ext fun value => ?_
  rw [lookup_eq_some_iff hreverse, lookup_eq_some_iff hnodup, List.mem_reverse]

/-! ## Rebindings -/

section Rebinding

variable {α : Type} {name source : α → String} {ty : α → Ty}

/-- Rebindings give the new names the values of the old ones, if no new name is read. -/
theorem execBlock_map_rebind {items : List α} {inner : Frame V} {outer : List (Frame V)}
    {globals : Frame V} {value : α → Option V} (hset : ∀ a ∈ items, value a ≠ none)
    (hvalue : ∀ a ∈ items, (inner :: outer).flatten.lookup (source a) = some (value a))
    (hfresh : ∀ a ∈ items, ∀ b ∈ items, source a ≠ name b) :
    execBlock I (items.map fun a => Shader.rebind (name a) (ty a) (source a))
        ⟨inner :: outer, globals⟩ =
      .ok ⟨((items.map fun a => (name a, value a)).reverse ++ inner) :: outer, globals⟩ := by
  induction items generalizing inner with
  | nil => rfl
  | cons a items ih =>
    rw [List.forall_mem_cons] at hset
    obtain ⟨v, hv⟩ := Option.ne_none_iff_exists'.mp hset.1
    have hread : exec I (Shader.rebind (name a) (ty a) (source a)) ⟨inner :: outer, globals⟩ =
        .ok ⟨((name a, value a) :: inner) :: outer, globals⟩ := by
      have hlookup := hvalue a List.mem_cons_self
      simp only [Shader.rebind, exec, evalThen, eval, readName, hlookup, hv]
      rfl
    have hrest : ∀ b ∈ items, (((name a, value a) :: inner) :: outer).flatten.lookup (source b) =
        some (value b) := by
      intro b hb
      have hne : (source b == name a) = false := by
        simpa using hfresh b (List.mem_cons_of_mem _ hb) a List.mem_cons_self
      have hlookup := hvalue b (List.mem_cons_of_mem _ hb)
      simpa [List.lookup_cons, hne] using hlookup
    rw [List.map_cons, execBlock, hread]
    refine (ih hset.2 hrest fun b hb c hc => ?_).trans (by simp)
    exact hfresh b (List.mem_cons_of_mem _ hb) c (List.mem_cons_of_mem _ hc)

/-- What rebindings bind, if the new names differ. -/
theorem lookup_map_rebind {items : List α} (inner : Frame V) (value : α → Option V)
    (hnodup : (items.map name).Nodup) :
    (∀ a ∈ items, ((items.map fun a => (name a, value a)).reverse ++ inner).lookup (name a) =
        some (value a)) ∧
      ∀ x ∉ items.map name,
        ((items.map fun a => (name a, value a)).reverse ++ inner).lookup x = inner.lookup x := by
  have hnames : (items.map fun a => (name a, value a)).map Prod.fst = items.map name := by simp
  have hdiffer : ((items.map fun a => (name a, value a)).map Prod.fst).Nodup := by rwa [hnames]
  refine ⟨fun a ha => ?_, fun x hx => ?_⟩
  · rw [List.lookup_append, lookup_reverse hdiffer,
      (lookup_eq_some_iff hdiffer).mpr (List.mem_map_of_mem ha), Option.some_or]
  · rw [List.lookup_append, lookup_reverse hdiffer, lookup_eq_none_iff.mpr (by rwa [hnames]),
      Option.none_or]

end Rebinding

/-- A rebinding reads the same value over different variables. -/
theorem exec_rebind_agree {name source : String} {ty : Ty} {inner globals : Frame V}
    {left right : List (Frame V)}
    (hsame : (inner :: left).flatten.lookup source = (inner :: right).flatten.lookup source) :
    Agree (fun m m' => ∃ value, m = ⟨((name, value) :: inner) :: left, globals⟩ ∧
        m' = ⟨((name, value) :: inner) :: right, globals⟩)
      (exec I (Shader.rebind name ty source) ⟨inner :: left, globals⟩)
      (exec I (Shader.rebind name ty source) ⟨inner :: right, globals⟩) := by
  have hread : ∀ outer : List (Frame V),
      exec I (Shader.rebind name ty source) ⟨inner :: outer, globals⟩ =
        readName (inner :: outer) source globals >>= fun read =>
          .ok ⟨((name, some read.1) :: inner) :: outer, read.2⟩ := fun _ => rfl
  rw [hread, hread, readName_congr hsame, readName_eq]
  rcases ((inner :: right).flatten.lookup source).or (globals.lookup source) with _ | _ | value
  · exact .error _
  · exact .error _
  · exact .ok ⟨some value, rfl, rfl⟩

/-- Rebindings bind the same values over different variables, where what they read is the same. -/
theorem execBlock_rebinds_agree {es : List Expr}
    (hes : ∀ e ∈ es, ∃ name ty source, e = Shader.rebind name ty source) {inner globals : Frame V}
    {left right : List (Frame V)}
    (hsame : ∀ x ∈ Scope.freeInBlock es,
      (inner :: left).flatten.lookup x = (inner :: right).flatten.lookup x) :
    Agree (fun m m' => ∃ new : Frame V, m = ⟨(new ++ inner) :: left, globals⟩ ∧
        m' = ⟨(new ++ inner) :: right, globals⟩ ∧
        ∀ x ∈ new.map Prod.fst, ∃ e ∈ es, e.binds? = some x)
      (execBlock I es ⟨inner :: left, globals⟩) (execBlock I es ⟨inner :: right, globals⟩) := by
  induction es generalizing inner with
  | nil => exact .ok ⟨[], rfl, rfl, by simp⟩
  | cons e es ih =>
    obtain ⟨⟨name, ty, source, rfl⟩, hrest⟩ := List.forall_mem_cons.mp hes
    simp only [Scope.mem_freeInBlock_cons] at hsame
    refine (exec_rebind_agree (hsame source (.inl (by simp [Shader.rebind, Scope.freeInStmt,
      Scope.freeInExpr])))).bind ?_
    rintro _ _ ⟨value, rfl, rfl⟩
    refine (ih hrest fun x hx => ?_).mono ?_
    · by_cases hname : x = name
      · simp [hname]
      · have hne : (x == name) = false := by simpa using hname
        have hbinds : (Shader.rebind name ty source).binds? ≠ some x := by
          simpa [Shader.rebind, Expr.binds?, eq_comm] using hname
        simpa [List.lookup_cons, hne] using hsame x (.inr ⟨hx, hbinds⟩)
    · rintro _ _ ⟨new, rfl, rfl, hnames⟩
      refine ⟨new ++ [(name, value)], by simp, by simp, fun x hx => ?_⟩
      rw [List.map_append, List.mem_append] at hx
      rcases hx with hx | hx
      · obtain ⟨e, he, hbinds⟩ := hnames x hx
        exact ⟨e, List.mem_cons_of_mem _ he, hbinds⟩
      · obtain rfl : x = name := by simpa using hx
        exact ⟨_, List.mem_cons_self, rfl⟩

/-- Each input that is fed denotes the value of the output that feeds it, and nothing else is bound
but links. -/
structure Feeds (pairs : List (Global × Global)) (outer inner : Frame V) : Prop where
  fed : ∀ pair ∈ pairs, inner.lookup pair.2.name = outer.lookup pair.1.name
  other : ∀ x ∉ pairs.map (·.2.name), (∀ i, x ≠ Word.link i) → inner.lookup x = none

section Feeding

variable {pairs : List (Global × Global)} {outer globals : Frame V}
  {value : Global × Global → Option V}

/-- Where no input has the name of an output that is read, the inputs are bound directly. -/
theorem execBlock_direct (hset : ∀ pair ∈ pairs, value pair ≠ none)
    (hread : ∀ pair ∈ pairs, outer.lookup pair.1.name = some (value pair))
    (hnodup : (pairs.map (·.2.name)).Nodup)
    (hfresh : ∀ a ∈ pairs, ∀ b ∈ pairs, a.1.name ≠ b.2.name) :
    ∃ inner : Frame V,
      execBlock I (pairs.map fun pair => Shader.rebind pair.2.name pair.2.ty pair.1.name)
          ⟨[[], outer], globals⟩ = .ok ⟨[inner, outer], globals⟩ ∧
        Feeds pairs outer inner := by
  obtain ⟨hbound, hother⟩ := lookup_map_rebind [] value hnodup
  refine ⟨_, execBlock_map_rebind hset (by simpa using hread) hfresh, ?_, ?_⟩
  · intro pair hpair
    rw [hbound pair hpair, hread pair hpair]
  · intro x hx _
    exact hother x hx

/-- The links of different pairs differ. -/
theorem nodup_links (pairs : List (Global × Global)) :
    (pairs.zipIdx.map fun a => Word.link a.2).Nodup := by
  have hrange : ((pairs.zipIdx.map Prod.snd).map Word.link).Nodup := by
    rw [List.zipIdx_map_snd]
    exact List.Nodup.map (fun i j h => Word.link_inj.mp h) List.nodup_range'
  rwa [List.map_map] at hrange

/-- All outputs are read into links first, so no input can hide an output that is read later. -/
theorem execBlock_linked (hset : ∀ pair ∈ pairs, value pair ≠ none)
    (hread : ∀ pair ∈ pairs, outer.lookup pair.1.name = some (value pair))
    (hnodup : (pairs.map (·.2.name)).Nodup)
    (hlinks : ∀ pair ∈ pairs, ∀ i, pair.1.name ≠ Word.link i ∧ pair.2.name ≠ Word.link i) :
    ∃ inner : Frame V,
      execBlock I
          (pairs.zipIdx.map (fun a => Shader.rebind (Word.link a.2) a.1.1.ty a.1.1.name) ++
            pairs.zipIdx.map fun a => Shader.rebind a.1.2.name a.1.2.ty (Word.link a.2))
          ⟨[[], outer], globals⟩ = .ok ⟨[inner, outer], globals⟩ ∧
        Feeds pairs outer inner := by
  have hmem : ∀ a ∈ pairs.zipIdx, a.1 ∈ pairs := fun a ha => List.fst_mem_of_mem_zipIdx ha
  have hinputs : pairs.zipIdx.map (·.1.2.name) = pairs.map (·.2.name) := by
    conv_rhs => rw [← List.zipIdx_map_fst 0 pairs, List.map_map]
    rfl
  let linked : Frame V := (pairs.zipIdx.map fun a => (Word.link a.2, value a.1)).reverse ++ []
  have hlinked : execBlock I
      (pairs.zipIdx.map fun a => Shader.rebind (Word.link a.2) a.1.1.ty a.1.1.name)
      ⟨[[], outer], globals⟩ = .ok ⟨[linked, outer], globals⟩ :=
    execBlock_map_rebind (fun a ha => hset a.1 (hmem a ha))
      (fun a ha => by simpa using hread a.1 (hmem a ha))
      (fun a ha b _ => (hlinks a.1 (hmem a ha) b.2).1)
  obtain ⟨hlink, hbeside⟩ := lookup_map_rebind [] (fun a => value a.1) (nodup_links pairs)
  let fed : Frame V := (pairs.zipIdx.map fun a => (a.1.2.name, value a.1)).reverse ++ linked
  have hfed : execBlock I
      (pairs.zipIdx.map fun a => Shader.rebind a.1.2.name a.1.2.ty (Word.link a.2))
      ⟨[linked, outer], globals⟩ = .ok ⟨[fed, outer], globals⟩ := by
    refine execBlock_map_rebind (fun a ha => hset a.1 (hmem a ha)) (fun a ha => ?_)
      (fun a _ b hb => ((hlinks b.1 (hmem b hb) a.2).2).symm)
    rw [List.flatten_cons, List.lookup_append, hlink a ha, Option.some_or]
  obtain ⟨hbound, hother⟩ := lookup_map_rebind linked (fun a => value a.1) (hinputs ▸ hnodup)
  refine ⟨fed, ?_, ?_, ?_⟩
  · rw [execBlock_append, hlinked]
    exact hfed
  · intro pair hpair
    obtain ⟨i, hi⟩ := List.mem_iff_getElem?.mp hpair
    rw [hbound (pair, i) (List.mem_zipIdx_iff_getElem?.mpr hi), hread pair hpair]
  · intro x hx hxlink
    rw [hother x (hinputs ▸ hx), hbeside x ?_]
    · rfl
    · intro hmem
      obtain ⟨a, -, ha⟩ := List.mem_map.mp hmem
      exact hxlink a.2 ha.symm

/-- Before the second shader runs, each input that is rebound denotes the value of the output that
feeds it, and nothing else is bound but links. -/
theorem execBlock_rebindings {outputs : List Global} (houtputs : ∀ pair ∈ pairs, pair.1 ∈ outputs)
    (hvalue : ∀ pair ∈ pairs, ∃ value, outer.lookup pair.1.name = some (some value))
    (hnodup : (pairs.map (·.2.name)).Nodup)
    (hlinks : ∀ pair ∈ pairs, ∀ i, pair.1.name ≠ Word.link i ∧ pair.2.name ≠ Word.link i) :
    ∃ inner : Frame V,
      execBlock I (Shader.rebindings outputs pairs) ⟨[[], outer], globals⟩ =
          .ok ⟨[inner, outer], globals⟩ ∧
        Feeds pairs outer inner := by
  let value : Global × Global → Option V := fun pair => (outer.lookup pair.1.name).join
  have hset : ∀ pair ∈ pairs, value pair ≠ none := by
    intro pair hpair
    obtain ⟨v, hv⟩ := hvalue pair hpair
    simp [value, hv]
  have hread : ∀ pair ∈ pairs, outer.lookup pair.1.name = some (value pair) := by
    intro pair hpair
    obtain ⟨v, hv⟩ := hvalue pair hpair
    simp [value, hv]
  unfold Shader.rebindings
  split
  · exact execBlock_linked hset hread hnodup hlinks
  · rename_i hclash
    refine execBlock_direct hset hread hnodup fun a ha b hb heq => ?_
    refine hclash (List.any_eq_true.mpr ⟨b, hb, List.any_eq_true.mpr ⟨a.1, houtputs a ha, ?_⟩⟩)
    simpa using heq

end Feeding

/-! ## The start and the end of a run -/

/-- The outputs of a shader are bound after its inputs. -/
theorem startFrame_eq (shader : Shader) (inputs : List V) :
    startFrame shader inputs =
      (unvalued shader.outputs).reverse ++ (valued shader.inputs inputs).reverse := by
  simp [startFrame]

/-- The names of variables without values. -/
theorem names_unvalued (globals : List Global) :
    (unvalued globals : Frame V).map Prod.fst = globals.map (·.name) := by
  simp [unvalued]

/-- The variables with values are some of those that are declared. -/
theorem names_valued_sublist (globals : List Global) (values : List V) :
    ((valued globals values).map Prod.fst).Sublist (globals.map (·.name)) := by
  induction globals generalizing values with
  | nil => simp [valued]
  | cons global globals ih =>
    cases values with
    | nil => simp [valued]
    | cons value values => simpa [valued] using ih values

/-- A variable without a value is found without one. -/
theorem lookup_unvalued {globals : List Global} {x : String} (hx : x ∈ globals.map (·.name)) :
    (unvalued globals : Frame V).reverse.lookup x = some none := by
  have hforward : ∀ globals : List Global, x ∈ globals.map (·.name) →
      (unvalued globals : Frame V).lookup x = some none := by
    intro globals hx
    induction globals with
    | nil => simp at hx
    | cons global globals ih =>
      by_cases hname : x = global.name
      · simp [unvalued, hname]
      · have hne : (x == global.name) = false := by simpa using hname
        have hrest : x ∈ globals.map (·.name) := (List.mem_cons.mp hx).resolve_left hname
        simpa [unvalued, List.lookup_cons, hne] using ih hrest
  have hreverse : (unvalued globals : Frame V).reverse = unvalued globals.reverse := by
    simp [unvalued]
  rw [hreverse]
  exact hforward globals.reverse (by simpa using hx)

/-- Variables without values hide nothing of another name. -/
theorem lookup_unvalued_append {globals : List Global} {x : String}
    (hx : x ∉ globals.map (·.name)) (frame : Frame V) :
    ((unvalued globals).reverse ++ frame).lookup x = frame.lookup x := by
  have hnone : (unvalued globals : Frame V).reverse.lookup x = none := by
    rw [lookup_eq_none_iff, List.map_reverse, names_unvalued]
    simpa using hx
  rw [List.lookup_append, hnone, Option.none_or]

/-- The variables that a shader starts with have different names, if its inputs and outputs do. -/
theorem nodup_startFrame {shader : Shader}
    (hnodup : (shader.inputNames ++ shader.outputNames).Nodup) (inputs : List V) :
    ((startFrame shader inputs).map Prod.fst).Nodup := by
  have hsub : ((startFrame shader inputs).map Prod.fst).reverse.Sublist
      (shader.inputNames ++ shader.outputNames) := by
    simp only [startFrame, List.map_reverse, List.reverse_reverse, List.map_append, names_unvalued]
    exact (names_valued_sublist shader.inputs inputs).append (List.Sublist.refl _)
  exact List.nodup_reverse.mp (hnodup.sublist hsub)

/-- A shader starts with a variable for each of its outputs. -/
theorem mem_startFrame_of_output {shader : Shader} {x : String} (hx : x ∈ shader.outputNames)
    (inputs : List V) : x ∈ (startFrame shader inputs).map Prod.fst := by
  rw [startFrame_eq, List.map_append, List.map_reverse, names_unvalued]
  exact List.mem_append_left _ (List.mem_reverse.mpr hx)

/-- Where the names differ, an output has the value of the variable of its name, whatever else the
body has bound. -/
theorem outputValue_eq_ok_iff {locals own : Frame V} {m : Memory V} {output : Global} {value : V}
    (hframes : m.frames = [locals ++ own]) (hnodup : (own.map Prod.fst).Nodup)
    (houtput : output.name ∈ own.map Prod.fst) :
    outputValue m output = .ok value ↔ own.lookup output.name = some (some value) := by
  have hlookup : (m.frames.getLast?.getD []).reverse.lookup output.name =
      own.lookup output.name := by
    have hfound : own.lookup output.name ≠ none := by
      rw [Ne, lookup_eq_none_iff]
      simpa using houtput
    obtain ⟨found, hfound⟩ := Option.ne_none_iff_exists'.mp hfound
    simp [hframes, List.lookup_append, lookup_reverse hnodup, hfound]
  unfold outputValue
  rw [hlookup]
  match own.lookup output.name with
  | none => simp
  | some none => simp
  | some (some found) => simp

/-- An output has the same value in two frames of different names where its name denotes the same
variable. -/
theorem outputValue_congr {frame frame' globals globals' : Frame V} {output : Global}
    (hnodup : (frame.map Prod.fst).Nodup) (hnodup' : (frame'.map Prod.fst).Nodup)
    (hsame : frame.lookup output.name = frame'.lookup output.name) :
    outputValue ⟨[frame], globals⟩ output = outputValue ⟨[frame'], globals'⟩ output := by
  unfold outputValue
  simp only [List.getLast?_singleton, Option.getD_some]
  rw [lookup_reverse hnodup, lookup_reverse hnodup', hsame]

/-- A frame holds the values of some variables. -/
def Frame.Holds (frame : Frame V) (globals : List Global) (values : List V) : Prop :=
  List.Forall₂ (fun global value => frame.lookup global.name = some (some value)) globals values

/-- A frame in which the names denote the same holds the same values. -/
theorem Frame.Holds.congr {frame other : Frame V} {globals : List Global} {values : List V}
    (h : frame.Holds globals values)
    (hsame : ∀ x ∈ globals.map (·.name), frame.lookup x = other.lookup x) :
    other.Holds globals values := by
  obtain ⟨hlength, hvalues⟩ := List.forall₂_iff_zip.mp h
  refine List.forall₂_iff_zip.mpr ⟨hlength, fun {global value} hmem => ?_⟩
  rw [← hsame _ (List.mem_map_of_mem (List.of_mem_zip hmem).1)]
  exact hvalues hmem

/-- A frame that holds the value of a variable has the variable. -/
theorem Frame.Holds.mem_names {frame : Frame V} {globals : List Global} {values : List V}
    (h : frame.Holds globals values) {x : String} (hx : x ∈ globals.map (·.name)) :
    x ∈ frame.map Prod.fst := by
  obtain ⟨global, hglobal, rfl⟩ := List.mem_map.mp hx
  obtain ⟨value, hvalue⟩ := exists_of_forall₂ h hglobal
  by_contra hnone
  rw [lookup_eq_none_iff.mpr hnone] at hvalue
  cases hvalue

/-- Where the names differ, the outputs have the values that the frame around the body holds. -/
theorem outputs_iff_holds {locals own : Frame V} {m : Memory V} {outputs : List Global}
    {values : List V} (hframes : m.frames = [locals ++ own]) (hnodup : (own.map Prod.fst).Nodup)
    (houtputs : ∀ x ∈ outputs.map (·.name), x ∈ own.map Prod.fst) :
    List.Forall₂ (fun output value => outputValue m output = .ok value) outputs values ↔
      own.Holds outputs values := by
  rw [Frame.Holds, List.forall₂_iff_zip, List.forall₂_iff_zip]
  refine and_congr_right fun _ => forall_congr' fun output => forall_congr' fun value =>
    forall_congr' fun hmem => ?_
  exact outputValue_eq_ok_iff hframes hnodup
    (houtputs _ (List.mem_map_of_mem (List.of_mem_zip hmem).1))

/-- A run executes the body and reads the outputs. -/
theorem run_eq_ok_iff {shader : Shader} {globals after : Frame V} {inputs outputs : List V} :
    run I shader globals inputs = .ok (outputs, after) ↔
      ∃ m, execBlock I shader.body ⟨[startFrame shader inputs], globals⟩ = .ok m ∧
        List.Forall₂ (fun output value => outputValue m output = .ok value) shader.outputs outputs ∧
        m.globals = after := by
  unfold run
  rw [bind_eq_ok]
  constructor
  · rintro ⟨m, hbody, hread⟩
    obtain ⟨values, hvalues, hresult⟩ := bind_eq_ok.mp hread
    cases hresult
    exact ⟨m, hbody, mapM_eq_ok.mp hvalues, rfl⟩
  · rintro ⟨m, hbody, hvalues, rfl⟩
    exact ⟨m, hbody, bind_eq_ok.mpr ⟨outputs, mapM_eq_ok.mpr hvalues, rfl⟩⟩

end Execution

end ShaderLang
