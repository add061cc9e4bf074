import ShaderLang.Proofs.Pipeline
import ShaderLang.Proofs.Signature

/-!
# Redeclaration

A block that binds one name twice is no block of the target language.  A composition writes bindings
into blocks: variables for the outputs of the first shader, and before the body of the second its
links and the inputs that have other names.  Whether a name is bound twice then hangs on the second
shader alone: on its inputs and on what its own block binds.

Main results:

- Theorem `bindings_composite`: what the blocks of a composite bind.
- Theorem `bindsOnce_composite`: the blocks of a composite bind no name twice exactly if those of
  the two shaders do not and the rebindings are separate from what the second shader binds.
- Theorem `bindsOnce_composite_iff`: when the blocks that a chain of compositions makes bind no name
  twice.
-/

namespace ShaderLang

/-! ## What blocks bind -/

namespace Expr

open Block (ownNames)

mutual

/-- What each of the blocks in a node binds, at every depth. -/
def bindings : Expr → List (List String)
  | .mutable _ _ value | .constant _ _ value | .update _ value | .output _ value => bindings value
  | .branch cond yes no =>
    bindings cond ++ ownNames yes :: bindingsEach yes ++ ownNames no :: bindingsEach no
  | .loop bound _ body => bindings bound ++ ownNames body :: bindingsEach body
  | .scope body => ownNames body :: bindingsEach body
  | .call _ args => bindingsEach args
  | .binary _ lhs rhs => bindings lhs ++ bindings rhs
  | .field base _ => bindings base
  | .index base position => bindings base ++ bindings position
  | .vec2 x y => bindings x ++ bindings y
  | .vec3 x y z => bindings x ++ bindings y ++ bindings z
  | .vec4 x y z w => bindings x ++ bindings y ++ bindings z ++ bindings w
  | .mat4 items | .array items => bindingsEach items
  | .uninit .. | .ref _ | .int _ | .bool _ | .float _ | .double _ => []
  | .lineComment _ | .blockComment _ | .done => []

/-- What each of the blocks in some nodes binds. -/
def bindingsEach : List Expr → List (List String)
  | [] => []
  | e :: es => bindings e ++ bindingsEach es

end

theorem bindingsEach_eq_flatMap (es : List Expr) : bindingsEach es = es.flatMap bindings := by
  induction es with
  | nil => rfl
  | cons e es ih => rw [bindingsEach, ih, List.flatMap_cons]

@[simp] theorem bindingsEach_append (es fs : List Expr) :
    bindingsEach (es ++ fs) = bindingsEach es ++ bindingsEach fs := by
  simp only [bindingsEach_eq_flatMap, List.flatMap_append]

end Expr

namespace Block

open ShaderLang.Expr

/-- What a block binds itself, and what each of the blocks in it binds. -/
def bindings (block : Block) : List (List String) :=
  ownNames block :: bindingsEach block

/-- No block among a block and those in it binds a name twice. -/
def BindsOnce (block : Block) : Prop :=
  ∀ names ∈ block.bindings, names.Nodup

instance (block : Block) : Decidable block.BindsOnce :=
  inferInstanceAs (Decidable (∀ names ∈ block.bindings, names.Nodup))

@[simp] theorem ownNames_append (es fs : List Expr) :
    ownNames (es ++ fs) = ownNames es ++ ownNames fs :=
  List.filterMap_append

/-- Leaving out end markers changes no binding of a block. -/
theorem ownNames_filter_isDone (es : List Expr) :
    ownNames (es.filter (!·.isDone)) = ownNames es := by
  rw [ownNames, List.filterMap_filter, ownNames]
  congr
  ext e : 1
  cases e <;> rfl

/-- Leaving out end markers changes no binding of the blocks in a block. -/
theorem bindingsEach_filter_isDone (es : List Expr) :
    bindingsEach (es.filter (!·.isDone)) = bindingsEach es := by
  rw [bindingsEach_eq_flatMap, flatMap_filter_isDone rfl, bindingsEach_eq_flatMap]

/-- Setting end markers right changes no binding. -/
@[simp] theorem bindings_ofStmts (es : List Expr) : bindings (ofStmts es) = bindings es := by
  rw [bindings, ofStmts, ownNames_append, bindingsEach_append, ownNames_filter_isDone,
    bindingsEach_filter_isDone]
  simp [bindings, ownNames, binds?, bindingsEach, Expr.bindings]

/-- The statements of a block of statements bind what they did before. -/
@[simp] theorem bindings_stmts_ofStmts (es : List Expr) :
    bindings (stmts (ofStmts es)) = bindings es := by
  rw [stmts_ofStmts, bindings, ownNames_filter_isDone, bindingsEach_filter_isDone, bindings]

/-- Without its end marker a block binds no more. -/
theorem BindsOnce.stmts {block : Block} (h : block.BindsOnce) : BindsOnce (Block.stmts block) := by
  rcases List.dropLast_prefix block with ⟨last, hlast⟩
  rw [BindsOnce, bindings, List.forall_mem_cons] at h ⊢
  rw [← hlast, ownNames_append, bindingsEach_append] at h
  constructor
  · exact (List.nodup_append.mp h.1).1
  · intro names hnames
    exact h.2 names (List.mem_append_left _ hnames)

section Mapped

variable {f : Expr → Expr}

mutual

/-- A change of a statement keeps the bindings in it if the change of a single node does. -/
theorem bindings_mapStmt (hf : ∀ e, (f e).binds? = e.binds? ∧ (f e).bindings = e.bindings)
    (e : Expr) : (mapStmt f e).bindings = e.bindings := by
  cases e with
  | branch cond yes no =>
    exact congrArg₂ (cond.bindings ++ · ++ ·) (bindings_mapEach hf yes) (bindings_mapEach hf no)
  | loop bound counter body => exact congrArg (bound.bindings ++ ·) (bindings_mapEach hf body)
  | scope body => exact bindings_mapEach hf body
  | _ => exact (hf _).2

/-- A change of each statement keeps the bindings. -/
theorem bindings_mapEach (hf : ∀ e, (f e).binds? = e.binds? ∧ (f e).bindings = e.bindings)
    (es : List Expr) : bindings (ofStmts (mapEach f es)) = bindings es := by
  rw [bindings_ofStmts]
  cases es with
  | nil => rfl
  | cons e es =>
    have hfirst := bindings_mapStmt hf e
    have hrest := bindings_mapEach hf es
    rw [bindings_ofStmts, bindings, bindings, List.cons.injEq] at hrest
    rw [mapEach, bindings, bindings, ownNames, List.filterMap_cons,
      Scope.binds?_mapStmt fun e => (hf e).1, ← ownNames, hrest.1, bindingsEach, bindingsEach,
      hfirst, hrest.2]
    rfl

end

end Mapped

end Block

/-! ## What a composite binds -/

namespace Shader

open Block ShaderLang.Expr

/-- The inputs of the second shader that are bound in a composite, since they have other names than
the outputs that feed them. -/
def reboundNames (down up : Shader) : List String :=
  (rebound down up).map (·.2.name)

/-- The links of a composite, which it has if an input that is bound is named like an output. -/
def linkNames (down up : Shader) : List String :=
  if (rebound down up).any fun pair => up.outputs.any (·.name == pair.2.name) then
    (List.range (rebound down up).length).map Word.link
  else []

/-- Rebindings bind one name each. -/
theorem ownNames_map_rebind {α : Type} (items : List α) (name source : α → String) (ty : α → Ty) :
    ownNames (items.map fun a => rebind (name a) (ty a) (source a)) = items.map name := by
  rw [ownNames, List.filterMap_map, ← List.filterMap_eq_map]
  rfl

/-- What the rebindings of a composite bind, in order. -/
theorem ownNames_rebindings (down up : Shader) :
    ownNames (rebindings up.outputs (rebound down up)) =
      linkNames down up ++ reboundNames down up := by
  unfold rebindings linkNames reboundNames
  split
  · have hlinks : (rebound down up).zipIdx.map (fun item => Word.link item.2) =
        (List.range (rebound down up).length).map Word.link := by
      rw [List.range_eq_range', ← List.zipIdx_map_snd, List.map_map]
      rfl
    have hinputs : (rebound down up).zipIdx.map (fun item => item.1.2.name) =
        (rebound down up).map (·.2.name) := by
      rw [← List.zipIdx_map_fst 0 (rebound down up), List.map_map, List.zipIdx_map_fst]
      rfl
    rw [ownNames_append, ownNames_map_rebind, ownNames_map_rebind, hlinks, hinputs]
  · rw [ownNames_map_rebind, List.nil_append]

/-- There are no blocks in rebindings. -/
theorem bindingsEach_rebindings (outputs : List Global) (pairs : List (Global × Global)) :
    bindingsEach (rebindings outputs pairs) = [] := by
  rw [bindingsEach_eq_flatMap, List.flatMap_eq_nil_iff]
  intro e he
  obtain ⟨-, -, rfl | ⟨-, rfl | rfl⟩⟩ := exists_eq_rebind he
  all_goals rfl

/-- The blocks of a composite bind the outputs of the first shader, what the first shader binds, and
what the second one binds, with the rebindings before what its own block binds. -/
theorem bindings_composite (stage : Stage) (down up : Shader) :
    (composite stage down up).body.bindings =
      up.outputNames :: up.body.bindings ++
        (linkNames down up ++ reboundNames down up ++ ownNames (Block.stmts down.body)) ::
          bindingsEach (Block.stmts down.body) := by
  have hlocals : ∀ outputs : List Global,
      ownNames (outputs.map fun output => .uninit output.ty output.name) = outputs.map (·.name) ∧
      bindingsEach (outputs.map fun output => .uninit output.ty output.name) = [] := by
    intro outputs
    induction outputs with
    | nil => exact ⟨rfl, rfl⟩
    | cons output outputs ih => exact ⟨congrArg (output.name :: ·) ih.1, ih.2⟩
  have hup : (Block.mapStmts outputToUpdate up.body).bindings = up.body.bindings :=
    bindings_mapEach (fun e => by cases e <;> exact ⟨rfl, rfl⟩) up.body
  have hdown : (fedBody down up).bindings =
      (linkNames down up ++ reboundNames down up ++ ownNames (Block.stmts down.body)) ::
        bindingsEach (Block.stmts down.body) := by
    rw [fedBody, bindings_ofStmts, Block.bindings, ownNames_append, bindingsEach_append,
      ownNames_rebindings, bindingsEach_rebindings, List.nil_append]
  have hscopes : bindingsEach
      [.scope (Block.mapStmts outputToUpdate up.body), .scope (fedBody down up)] =
      (Block.mapStmts outputToUpdate up.body).bindings ++ ((fedBody down up).bindings ++ []) := rfl
  rw [composite, bindings_ofStmts, compositeStmts, Block.bindings, ownNames_append,
    bindingsEach_append, (hlocals up.outputs).1, (hlocals up.outputs).2, hscopes, hup, hdown,
    List.append_nil, List.nil_append, List.cons_append]
  exact congrArg (· :: _) (List.append_nil _)

/-! ## When a composite binds no name twice -/

/-- The rebindings of a composite are separate from what the second shader binds: its own block
binds no input that is bound before it, and no link is one of these inputs or bound by its own
block. -/
def Separate (down up : Shader) : Prop :=
  (∀ x ∈ reboundNames down up, x ∉ ownNames (Block.stmts down.body)) ∧
    ∀ x ∈ linkNames down up, x ∉ reboundNames down up ∧ x ∉ ownNames (Block.stmts down.body)

instance (down up : Shader) : Decidable (Separate down up) :=
  inferInstanceAs (Decidable (_ ∧ _))

/-- Links are different. -/
theorem nodup_linkNames (down up : Shader) : (linkNames down up).Nodup := by
  unfold linkNames
  split
  · exact List.nodup_range.map fun i j heq => Word.link_inj.mp heq
  · exact List.nodup_nil

/-- The blocks of a composite bind no name twice exactly if those of the two shaders do not and the
rebindings are separate from what the second shader binds. -/
theorem bindsOnce_composite {stage : Stage} {down up : Shader} (hfits : Fits down up)
    (houtputs : up.outputNames.Nodup) (hinputs : down.inputNames.Nodup) :
    (composite stage down up).body.BindsOnce ↔
      up.body.BindsOnce ∧ BindsOnce (Block.stmts down.body) ∧ Separate down up := by
  have hrebound : (reboundNames down up).Nodup :=
    hinputs.sublist (Execution.names_rebound_sublist hfits)
  have hlinks := nodup_linkNames down up
  have hown :
      (linkNames down up ++ reboundNames down up ++ ownNames (Block.stmts down.body)).Nodup ↔
        (ownNames (Block.stmts down.body)).Nodup ∧ Separate down up := by
    rw [List.nodup_append', List.nodup_append', List.disjoint_append_left]
    constructor
    · rintro ⟨⟨-, -, hlinked⟩, hown, hlinkedOwn, hreboundOwn⟩
      exact ⟨hown, fun x hx => hreboundOwn hx, fun x hx => ⟨hlinked hx, hlinkedOwn hx⟩⟩
    · rintro ⟨hown, hreboundOwn, hlinked⟩
      exact ⟨⟨hlinks, hrebound, fun x hx => (hlinked x hx).1⟩, hown, fun x hx => (hlinked x hx).2,
        fun x hx => hreboundOwn x hx⟩
  have hstmts : BindsOnce (Block.stmts down.body) ↔ (ownNames (Block.stmts down.body)).Nodup ∧
      ∀ names ∈ bindingsEach (Block.stmts down.body), names.Nodup := List.forall_mem_cons
  rw [BindsOnce, bindings_composite, List.forall_mem_append, List.forall_mem_cons,
    List.forall_mem_cons, hown, hstmts]
  constructor
  · rintro ⟨⟨-, hup⟩, ⟨hdown, hseparate⟩, hinner⟩
    exact ⟨hup, ⟨hdown, hinner⟩, hseparate⟩
  · rintro ⟨hup, ⟨hdown, hinner⟩, hseparate⟩
    exact ⟨⟨houtputs, hup⟩, ⟨hdown, hseparate⟩, hinner⟩

/-! ## Chains of compositions -/

/-- A shader that may stand at the start of chains: its inputs and outputs have different names, and
no block of its body binds a name twice. -/
structure IsProper (shader : Shader) : Prop where
  distinct : shader.DistinctNames
  once : shader.body.BindsOnce

/-- `shader` is made like in `Composed`, and each time the rebindings are separate from what the
second shader binds. -/
inductive ComposedApart (base : Shader → Prop) : (first last shader : Shader) → Prop where
  | single {shader : Shader} (hbase : base shader) : ComposedApart base shader shader shader
  | step {stage : Stage} {first next former last up down shader : Shader}
      (hup : ComposedApart base first next up) (hdown : ComposedApart base former last down)
      (hcompose : compose stage down up = .ok shader) (hseparate : Separate down up) :
      ComposedApart base first last shader

variable {base : Shader → Prop} {first last shader : Shader}

/-- Chains of separate compositions are chains of compositions. -/
theorem ComposedApart.composed (h : ComposedApart base first last shader) :
    Composed base first last shader := by
  induction h with
  | single hbase => exact .single hbase
  | step _ _ hcompose _ ihup ihdown => exact .step ihup ihdown hcompose

/-- The inputs of a shader that is made by compositions have different names, and so have its
outputs. -/
theorem Composed.nodup (hbase : ∀ shader, base shader → shader.IsProper)
    (h : Composed base first last shader) :
    shader.inputNames.Nodup ∧ shader.outputNames.Nodup := by
  rcases h.ends with ⟨hfirst, hlast, hinputs, houtputs⟩
  have hfirstNames := distinctNames_iff.mp (hbase first hfirst).distinct
  have hlastNames := distinctNames_iff.mp (hbase last hlast).distinct
  rw [inputNames, hinputs, outputNames, houtputs]
  exact ⟨hfirstNames.1, hlastNames.2.1⟩

/-- If the statements of a shader that is made by compositions bind no name twice, no more does its
body. -/
theorem Composed.bindsOnce_of_stmts (hbase : ∀ shader, base shader → shader.IsProper)
    (h : Composed base first last shader) (honce : BindsOnce (Block.stmts shader.body)) :
    shader.body.BindsOnce := by
  cases h with
  | single hsingle => exact (hbase _ hsingle).once
  | step _ _ hcompose =>
    rcases compose_eq_ok_iff.mp hcompose with ⟨-, rfl⟩
    rwa [BindsOnce, composite, bindings_stmts_ofStmts, ← bindings_ofStmts] at honce

/-- If no block of a shader that is made by compositions binds a name twice, all the compositions
are separate. -/
theorem Composed.apart (hbase : ∀ shader, base shader → shader.IsProper)
    (h : Composed base first last shader) (honce : shader.body.BindsOnce) :
    ComposedApart base first last shader := by
  induction h with
  | single hsingle => exact .single hsingle
  | step hup hdown hcompose ihup ihdown =>
    rcases compose_eq_ok_iff.mp hcompose with ⟨hfits, rfl⟩
    rw [bindsOnce_composite hfits (hup.nodup hbase).2 (hdown.nodup hbase).1] at honce
    rcases honce with ⟨honceUp, honceDown, hseparate⟩
    have hdownOnce := hdown.bindsOnce_of_stmts hbase honceDown
    exact .step (ihup honceUp) (ihdown hdownOnce) hcompose hseparate

/-- Separate compositions make no block that binds a name twice. -/
theorem ComposedApart.bindsOnce (hbase : ∀ shader, base shader → shader.IsProper)
    (h : ComposedApart base first last shader) : shader.body.BindsOnce := by
  induction h with
  | single hsingle => exact (hbase _ hsingle).once
  | step hup hdown hcompose hseparate ihup ihdown =>
    rcases compose_eq_ok_iff.mp hcompose with ⟨hfits, rfl⟩
    rw [bindsOnce_composite hfits (hup.composed.nodup hbase).2 (hdown.composed.nodup hbase).1]
    exact ⟨ihup, ihdown.stmts, hseparate⟩

/-- A shader keeps what composition binds apart from its own names: its own block binds none of its
inputs, and none of its names is a link. -/
structure KeepsApart (shader : Shader) : Prop where
  inputs : ∀ x ∈ shader.inputNames, x ∉ ownNames shader.body
  links : ∀ i, Word.link i ∉ shader.inputNames ∧ Word.link i ∉ shader.outputNames ∧
    Word.link i ∉ ownNames shader.body

/-- The own block of a composite binds the outputs of the first shader. -/
theorem ownNames_composite (stage : Stage) (down up : Shader) :
    ownNames (composite stage down up).body = up.outputNames :=
  (List.cons.inj (bindings_composite stage down up)).1

/-- A composite of shaders that keep apart keeps apart. -/
theorem KeepsApart.composite {down up : Shader} (hfits : Fits down up) (hdown : down.KeepsApart)
    (hup : up.KeepsApart) (stage : Stage) : (composite stage down up).KeepsApart := by
  constructor
  · intro x hinput
    rw [ownNames_composite]
    exact fun houtput => hfits.notInput x houtput hinput
  · intro i
    rw [ownNames_composite]
    exact ⟨(hup.links i).1, (hdown.links i).2.1, (hup.links i).2.1⟩

/-- Composing with a second shader that keeps apart is separate. -/
theorem KeepsApart.separate {down up : Shader} (hfits : Fits down up) (hdown : down.KeepsApart) :
    Separate down up := by
  have hinputs : ∀ x ∈ reboundNames down up, x ∈ down.inputNames :=
    fun x hx => (Execution.names_rebound_sublist hfits).subset hx
  have hown : ∀ x ∈ ownNames (Block.stmts down.body), x ∈ ownNames down.body := by
    rcases List.dropLast_prefix down.body with ⟨final, hfinal⟩
    intro x hx
    rw [← hfinal, ownNames_append]
    exact List.mem_append_left _ hx
  constructor
  · intro x hx hbound
    exact hdown.inputs x (hinputs x hx) (hown x hbound)
  · intro x hx
    have hlink : ∃ i, x = Word.link i := by
      unfold linkNames at hx
      split at hx
      · rcases List.mem_map.mp hx with ⟨i, -, rfl⟩
        exact ⟨i, rfl⟩
      · cases hx
    rcases hlink with ⟨i, rfl⟩
    exact ⟨fun h => (hdown.links i).1 (hinputs _ h), fun h => (hdown.links i).2.2 (hown _ h)⟩

/-- All compositions of shaders that keep apart are separate. -/
theorem Composed.apart_of_keepsApart (hbase : ∀ shader, base shader → shader.KeepsApart)
    (h : Composed base first last shader) :
    shader.KeepsApart ∧ ComposedApart base first last shader := by
  induction h with
  | single hsingle => exact ⟨hbase _ hsingle, .single hsingle⟩
  | step hup hdown hcompose ihup ihdown =>
    rcases compose_eq_ok_iff.mp hcompose with ⟨hfits, rfl⟩
    exact ⟨ihdown.1.composite hfits ihup.1 _,
      .step ihup.2 ihdown.2 hcompose (ihdown.1.separate hfits)⟩

/-- When composition introduces no redeclaration.  Let the inputs and outputs of two shaders have
different names, and let no block of their bodies bind a name twice.  Then no block of their
composite does exactly if the rebindings are separate from what the second shader binds.  No block
of a shader that any chain of compositions makes from such shaders does exactly if all compositions
of the chain are separate.  It is enough that the own blocks of the shaders that the chain starts
from bind none of their inputs and that none of their names is a link. -/
theorem bindsOnce_composite_iff :
    (∀ stage down up c, up.IsProper → down.IsProper → compose stage down up = .ok c →
      (c.body.BindsOnce ↔ Separate down up)) ∧
    (∀ first last c, Composed IsProper first last c →
      (c.body.BindsOnce ↔ ComposedApart IsProper first last c)) ∧
    ∀ first last c, Composed (fun shader => shader.IsProper ∧ shader.KeepsApart) first last c →
      c.body.BindsOnce := by
  refine ⟨?_, ?_, ?_⟩
  · intro stage down up c hup hdown hcompose
    rcases compose_eq_ok_iff.mp hcompose with ⟨hfits, rfl⟩
    have houtputs := (distinctNames_iff.mp hup.distinct).2.1
    have hinputs := (distinctNames_iff.mp hdown.distinct).1
    rw [bindsOnce_composite hfits houtputs hinputs]
    constructor
    · exact fun h => h.2.2
    · exact fun h => ⟨hup.once, hdown.once.stmts, h⟩
  · intro first last c hcomposed
    constructor
    · exact hcomposed.apart fun _ h => h
    · exact ComposedApart.bindsOnce fun _ h => h
  · intro first last c hcomposed
    have hapart := (hcomposed.apart_of_keepsApart fun _ h => h.2).2
    exact hapart.bindsOnce fun _ h => h.1

open Execution (vertexShader pairWriter)

/-- Takes two inputs, named like the outputs of `pairWriter` in the other order, and adds them up in
a variable of some name. -/
def adding (name : String) : Shader :=
  vertexShader ["b", "a"] ["o"]
    [.mutable .float name (.binary .add (.ref "b") (.ref "a")), .output "o" (.ref name)]

/-- Three shaders with crossing inputs, a variable and another name for an input compose without
redeclaration. -/
theorem bindsOnce_adding :
    (pairWriter "b").IsProper ∧ (adding "s").IsProper ∧
      compose .vertex (adding "s") (pairWriter "b") =
        .ok (composite .vertex (adding "s") (pairWriter "b")) ∧
      (composite .vertex (adding "s") (pairWriter "b")).body.BindsOnce ∧
      (composite .vertex (copying "x" "r")
        (composite .vertex (adding "s") (pairWriter "b"))).body.BindsOnce := by
  have hup : (pairWriter "b").IsProper := ⟨by decide, by decide⟩
  have hdown : (adding "s").IsProper := ⟨by decide, by decide⟩
  have hlast : (copying "x" "r").IsProper := ⟨by decide, by decide⟩
  have htwo : Composed IsProper (pairWriter "b") (adding "s")
      (composite .vertex (adding "s") (pairWriter "b")) :=
    .step (.single hup) (.single hdown) rfl
  have honce := bindsOnce_composite_iff.1 .vertex (adding "s") (pairWriter "b") _ hup hdown rfl
  have hthree := bindsOnce_composite_iff.2.1 (pairWriter "b") (copying "x" "r")
    (composite .vertex (copying "x" "r") (composite .vertex (adding "s") (pairWriter "b")))
    (.step htwo (.single hlast) rfl)
  refine ⟨hup, hdown, rfl, honce.mpr (by decide), hthree.mpr ?_⟩
  exact .step (.step (.single hup) (.single hdown) rfl (by decide)) (.single hlast) rfl (by decide)

/-- Two proper shaders compose, and a block of their composite binds a name twice. -/
structure Redeclares (down up : Shader) : Prop where
  first : up.IsProper
  second : down.IsProper
  composes : compose .vertex down up = .ok (composite .vertex down up)
  twice : ¬ (composite .vertex down up).body.BindsOnce

/-- A variable of the second shader is bound twice if it is named like an input that has another
name than its output, or like a link. -/
theorem redeclares_input_and_link :
    Redeclares
      (vertexShader ["x"] ["o"] [.mutable .float "x" (.int 1), .output "o" (.ref "x")])
      (copying "p" "a") ∧
      Redeclares (adding "_c0") (pairWriter "b") :=
  ⟨⟨⟨by decide, by decide⟩, ⟨by decide, by decide⟩, rfl, by decide⟩,
    ⟨⟨by decide, by decide⟩, ⟨by decide, by decide⟩, rfl, by decide⟩⟩

end Shader

end ShaderLang
