import ShaderLang.Proofs.Composite

/-!
# Changing all statements

`Block.mapStmts` changes the statements of a block and of the blocks nested in it.  End markers are
changed like statements: what becomes an end marker is dropped, what an end marker becomes is kept,
and each block gets a new end marker.  All of this is regular enough for the laws of a functor.  The
change that keeps all nodes keeps the block, and two changes one after the other are one change, if
the first one makes no node with blocks out of one without and the second one keeps end markers.

Main results:

- Theorem `nested_induct`: induction on a statement through the blocks nested in it.
- Theorem `isSealed_iff`: a sealed block has exactly one end marker, in last place.
- Theorem `sealedThroughout_mapStmts`: a change leaves all blocks sealed.
- Theorem `filter_leaves_mapStmt`: a change applies once to each node without blocks.
- Theorem `mapStmts_lawful`: changes of statements obey the laws of a functor.
-/

namespace ShaderLang

/-! ## Nested blocks -/

namespace Expr

/-- Induction on a statement through the blocks nested in it. -/
theorem nested_induct {motive : Expr → Prop} (leaf : ∀ e, e.form ≠ .control → motive e)
    (branch : ∀ cond yes no, (∀ e ∈ yes, motive e) → (∀ e ∈ no, motive e) →
      motive (.branch cond yes no))
    (loop : ∀ bound counter body, (∀ e ∈ body, motive e) → motive (.loop bound counter body))
    (scope : ∀ body, (∀ e ∈ body, motive e) → motive (.scope body)) (e : Expr) : motive e := by
  cases e with
  | branch cond yes no =>
    exact branch cond yes no (fun e _ => nested_induct leaf branch loop scope e)
      fun e _ => nested_induct leaf branch loop scope e
  | loop bound counter body =>
    exact loop bound counter body fun e _ => nested_induct leaf branch loop scope e
  | scope body => exact scope body fun e _ => nested_induct leaf branch loop scope e
  | _ => exact leaf _ (by simp [form])
termination_by sizeOf e

mutual

/-- The blocks in a node, at any depth, also those in conditions, bounds and operands. -/
def blocks : Expr → List Block
  | .mutable _ _ value | .constant _ _ value | .update _ value | .output _ value => value.blocks
  | .branch cond yes no => cond.blocks ++ (yes :: blocksEach yes ++ no :: blocksEach no)
  | .loop bound _ body => bound.blocks ++ body :: blocksEach body
  | .scope body => body :: blocksEach body
  | .vec2 x y | .binary _ x y | .index x y => x.blocks ++ y.blocks
  | .vec3 x y z => x.blocks ++ (y.blocks ++ z.blocks)
  | .vec4 x y z w => x.blocks ++ (y.blocks ++ (z.blocks ++ w.blocks))
  | .mat4 items | .call _ items | .array items => blocksEach items
  | .field base _ => base.blocks
  | .uninit .. | .int _ | .bool _ | .float _ | .double _ | .ref _ | .lineComment _
  | .blockComment _ | .done => []

/-- The blocks in some nodes. -/
def blocksEach : List Expr → List Block
  | [] => []
  | e :: es => e.blocks ++ blocksEach es

end

mutual

/-- The statements without blocks that a statement consists of, with all end markers, in order. -/
def leaves : Expr → List Expr
  | .branch _ yes no => leavesEach yes ++ leavesEach no
  | .loop _ _ body | .scope body => leavesEach body
  | e => [e]

/-- The statements without blocks that some statements consist of. -/
def leavesEach : List Expr → List Expr
  | [] => []
  | e :: es => e.leaves ++ leavesEach es

end

/-- All blocks in a node are sealed. -/
def SealedThroughout (e : Expr) : Prop :=
  ∀ block ∈ e.blocks, Block.IsSealed block

/-- A block in some nodes is in one of them. -/
@[simp] theorem mem_blocksEach_iff {block : Block} {es : List Expr} :
    block ∈ blocksEach es ↔ ∃ e ∈ es, block ∈ e.blocks := by
  induction es with
  | nil => simp [blocksEach]
  | cons e es ih => simp [blocksEach, ih]

theorem leavesEach_eq_flatMap (es : List Expr) : leavesEach es = es.flatMap leaves := by
  induction es with
  | nil => rfl
  | cons e es ih => rw [leavesEach, ih, List.flatMap_cons]

/-- A node without blocks consists of itself. -/
theorem leaves_of_form {e : Expr} (h : e.form ≠ .control) : e.leaves = [e] := by
  cases e with
  | branch | loop | scope => exact absurd rfl h
  | _ => rfl

end Expr

namespace Block

open ShaderLang.Expr

/-- A block and the blocks in it, at any depth. -/
def blocks (block : Block) : List Block :=
  block :: blocksEach block

/-- A block and all blocks in it are sealed. -/
def SealedThroughout (block : Block) : Prop :=
  ∀ inner ∈ block.blocks, inner.IsSealed

/-- A block is sealed throughout if it is sealed and its nodes are sealed throughout. -/
theorem sealedThroughout_iff {block : Block} :
    block.SealedThroughout ↔ block.IsSealed ∧ ∀ e ∈ block, e.SealedThroughout := by
  constructor
  · intro h
    refine ⟨h block List.mem_cons_self, fun e he inner hinner => h inner ?_⟩
    exact List.mem_cons_of_mem _ (mem_blocksEach_iff.mpr ⟨e, he, hinner⟩)
  · rintro ⟨hsealed, hnodes⟩ inner hinner
    rcases List.mem_cons.mp hinner with rfl | hinner
    · exact hsealed
    · rcases mem_blocksEach_iff.mp hinner with ⟨e, he, hinner⟩
      exact hnodes e he inner hinner

/-- A sealed block has exactly one end marker, in last place. -/
theorem isSealed_iff {block : Block} :
    block.IsSealed ↔ block.countP Expr.isDone = 1 ∧ block.getLast? = some .done := by
  constructor
  · rintro ⟨exprs, rfl⟩
    simp [ofStmts, List.countP_append, isDone, List.countP_filter]
  · rintro ⟨hcount, hlast⟩
    rcases List.getLast?_eq_some_iff.mp hlast with ⟨stmts, rfl⟩
    rw [List.countP_append] at hcount
    refine ⟨stmts, ?_⟩
    rw [ofStmts, List.filter_eq_self.mpr]
    intro e he
    have hnone : stmts.countP Expr.isDone = 0 := by simpa [isDone] using hcount
    rw [Bool.not_eq_true']
    exact Bool.eq_false_iff.mpr (List.countP_eq_zero.mp hnone e he)

/-- Setting the end markers of a sealed block right keeps the block. -/
theorem ofStmts_of_isSealed {block : Block} (h : block.IsSealed) : ofStmts block = block := by
  rcases h with ⟨exprs, rfl⟩
  simp [ofStmts, isDone]

/-- The block of some nodes is sealed throughout if the nodes are. -/
theorem sealedThroughout_ofStmts {es : List Expr} (h : ∀ e ∈ es, e.SealedThroughout) :
    (ofStmts es).SealedThroughout := by
  refine sealedThroughout_iff.mpr ⟨isSealed_ofStmts es, fun e he => ?_⟩
  rcases List.mem_append.mp he with hstmt | hdone
  · exact h e (List.mem_filter.mp hstmt).1
  · rcases List.mem_singleton.mp hdone with rfl
    simp [Expr.SealedThroughout, Expr.blocks]

end Block

namespace Expr

variable {cond bound : Expr} {yes no body : Block} {counter : Option String}

theorem sealedThroughout_branch : (branch cond yes no).SealedThroughout ↔
    cond.SealedThroughout ∧ yes.SealedThroughout ∧ no.SealedThroughout := by
  simp only [SealedThroughout, blocks, Block.SealedThroughout, Block.blocks, List.forall_mem_append]

theorem sealedThroughout_loop : (loop bound counter body).SealedThroughout ↔
    bound.SealedThroughout ∧ body.SealedThroughout := by
  simp only [SealedThroughout, blocks, Block.SealedThroughout, Block.blocks, List.forall_mem_append]

theorem sealedThroughout_scope : (scope body).SealedThroughout ↔ body.SealedThroughout := by
  simp only [SealedThroughout, blocks, Block.SealedThroughout, Block.blocks]

end Expr

/-! ## Changes -/

namespace Block

open ShaderLang.Expr

variable {f g : Expr → Expr}

/-- Each node of a list is changed in its place. -/
theorem mapEach_eq_map (f : Expr → Expr) (es : List Expr) : mapEach f es = es.map (mapStmt f) := by
  induction es with
  | nil => rfl
  | cons e es ih => rw [mapEach, ih, List.map_cons]

/-- A node without blocks is changed itself. -/
theorem mapStmt_of_form {e : Expr} (f : Expr → Expr) (h : e.form ≠ .control) :
    mapStmt f e = f e := by
  cases e with
  | branch | loop | scope => exact absurd rfl h
  | _ => rfl

/-! ### End markers -/

/-- A block is sealed throughout after a change if its changed nodes are. -/
theorem sealedThroughout_mapStmts_of_forall {block : Block} (h : block.SealedThroughout)
    (ih : ∀ e ∈ block, e.SealedThroughout → (mapStmt f e).SealedThroughout) :
    (mapStmts f block).SealedThroughout := by
  refine sealedThroughout_ofStmts ?_
  rw [mapEach_eq_map, List.forall_mem_map]
  exact fun e he => ih e he ((sealedThroughout_iff.mp h).2 e he)

/-- A change leaves all blocks in a statement sealed. -/
theorem sealedThroughout_mapStmt
    (hf : ∀ e : Expr, e.SealedThroughout → (f e).SealedThroughout) (e : Expr)
    (h : e.SealedThroughout) : (mapStmt f e).SealedThroughout := by
  induction e using nested_induct with
  | leaf e he =>
    rw [mapStmt_of_form f he]
    exact hf e h
  | branch cond yes no ihyes ihno =>
    rcases sealedThroughout_branch.mp h with ⟨hcond, hyes, hno⟩
    exact sealedThroughout_branch.mpr ⟨hcond, sealedThroughout_mapStmts_of_forall hyes ihyes,
      sealedThroughout_mapStmts_of_forall hno ihno⟩
  | loop bound counter body ih =>
    rcases sealedThroughout_loop.mp h with ⟨hbound, hbody⟩
    exact sealedThroughout_loop.mpr ⟨hbound, sealedThroughout_mapStmts_of_forall hbody ih⟩
  | scope body ih =>
    have hbody := sealedThroughout_scope.mp h
    exact sealedThroughout_scope.mpr (sealedThroughout_mapStmts_of_forall hbody ih)

/-- A change leaves all blocks sealed. -/
theorem sealedThroughout_mapStmts {block : Block} (h : block.SealedThroughout)
    (hf : ∀ e : Expr, e.SealedThroughout → (f e).SealedThroughout) :
    (mapStmts f block).SealedThroughout :=
  sealedThroughout_mapStmts_of_forall h fun e _ => sealedThroughout_mapStmt hf e

/-! ### The laws of a functor -/

/-- A block is kept if all its nodes are. -/
theorem mapStmts_id_of_forall {block : Block} (h : block.SealedThroughout)
    (ih : ∀ e ∈ block, e.SealedThroughout → mapStmt id e = e) : mapStmts id block = block := by
  rcases sealedThroughout_iff.mp h with ⟨hsealed, hnodes⟩
  have hmap : block.map (mapStmt id) = block := by
    rw [List.map_congr_left fun e he => ih e he (hnodes e he), List.map_id']
  rw [mapStmts, mapEach_eq_map, hmap, ofStmts_of_isSealed hsealed]

/-- The change that keeps all nodes keeps a statement. -/
theorem mapStmt_id (e : Expr) (h : e.SealedThroughout) : mapStmt id e = e := by
  induction e using nested_induct with
  | leaf e he => exact mapStmt_of_form id he
  | branch cond yes no ihyes ihno =>
    rcases sealedThroughout_branch.mp h with ⟨-, hyes, hno⟩
    exact congrArg₂ (branch cond) (mapStmts_id_of_forall hyes ihyes)
      (mapStmts_id_of_forall hno ihno)
  | loop bound counter body ih =>
    rcases sealedThroughout_loop.mp h with ⟨-, hbody⟩
    exact congrArg (loop bound counter) (mapStmts_id_of_forall hbody ih)
  | scope body ih =>
    exact congrArg scope (mapStmts_id_of_forall (sealedThroughout_scope.mp h) ih)

/-- A change that keeps end markers may be made before the end markers are set right. -/
theorem mapStmts_ofStmts (hf : f .done = .done) (es : List Expr) :
    mapStmts f (ofStmts es) = mapStmts f es := by
  have hmark : mapStmt f .done = .done := hf
  have hdone : Expr.done.isDone = true := rfl
  have hfilter : ((es.filter (!·.isDone)).map (mapStmt f)).filter (!·.isDone) =
      (es.map (mapStmt f)).filter (!·.isDone) := by
    induction es with
    | nil => rfl
    | cons e es ih =>
      cases he : e.isDone with
      | true =>
        rcases isDone_iff.mp he with rfl
        simp [hdone, hmark, ih]
      | false => simp [he, List.filter_cons, ih]
  simp [mapStmts, mapEach_eq_map, ofStmts, hfilter, hmark, hdone]

/-- Two changes of a block one after the other are one change if this holds of all its nodes. -/
theorem mapStmts_mapStmts_of_forall {block : Block} (hf : f .done = .done)
    (h : block.SealedThroughout)
    (ih : ∀ e ∈ block, e.SealedThroughout → mapStmt f (mapStmt g e) = mapStmt (f ∘ g) e) :
    mapStmts f (mapStmts g block) = mapStmts (f ∘ g) block := by
  have hnodes := (sealedThroughout_iff.mp h).2
  calc mapStmts f (mapStmts g block)
    _ = mapStmts f (mapEach g block) := mapStmts_ofStmts hf _
    _ = ofStmts (block.map (mapStmt f ∘ mapStmt g)) := by
      rw [mapStmts, mapEach_eq_map, mapEach_eq_map, List.map_map]
    _ = ofStmts (block.map (mapStmt (f ∘ g))) :=
      congrArg ofStmts (List.map_congr_left fun e he => ih e he (hnodes e he))
    _ = mapStmts (f ∘ g) block := by rw [mapStmts, mapEach_eq_map]

/-- Two changes of a statement one after the other are one change. -/
theorem mapStmt_mapStmt (hf : f .done = .done)
    (hg : ∀ e : Expr, e.SealedThroughout → e.form ≠ .control → (g e).form ≠ .control) (e : Expr)
    (h : e.SealedThroughout) : mapStmt f (mapStmt g e) = mapStmt (f ∘ g) e := by
  induction e using nested_induct with
  | leaf e he =>
    rw [mapStmt_of_form g he, mapStmt_of_form f (hg e h he), mapStmt_of_form (f ∘ g) he]
    rfl
  | branch cond yes no ihyes ihno =>
    rcases sealedThroughout_branch.mp h with ⟨-, hyes, hno⟩
    exact congrArg₂ (branch cond) (mapStmts_mapStmts_of_forall hf hyes ihyes)
      (mapStmts_mapStmts_of_forall hf hno ihno)
  | loop bound counter body ih =>
    rcases sealedThroughout_loop.mp h with ⟨-, hbody⟩
    exact congrArg (loop bound counter) (mapStmts_mapStmts_of_forall hf hbody ih)
  | scope body ih =>
    exact congrArg scope (mapStmts_mapStmts_of_forall hf (sealedThroughout_scope.mp h) ih)

/-! ### What is changed -/

/-- Setting end markers right changes no other node. -/
theorem filter_leavesEach_ofStmts (es : List Expr) :
    (leavesEach (ofStmts es)).filter (!·.isDone) = (leavesEach es).filter (!·.isDone) := by
  rw [leavesEach_eq_flatMap, List.filter_flatMap, flatMap_ofStmts rfl, leavesEach_eq_flatMap,
    List.filter_flatMap]

/-- The nodes of a changed block are those of its changed nodes. -/
theorem filter_leavesEach_of_forall {block : Block}
    (ih : ∀ e ∈ block, ((mapStmt f e).leaves).filter (!·.isDone) =
      (e.leaves.flatMap fun e => (f e).leaves).filter (!·.isDone)) :
    (leavesEach (mapStmts f block)).filter (!·.isDone) =
      ((leavesEach block).flatMap fun e => (f e).leaves).filter (!·.isDone) := by
  rw [mapStmts, filter_leavesEach_ofStmts]
  induction block with
  | nil => rfl
  | cons e es hes =>
    rcases List.forall_mem_cons.mp ih with ⟨he, hrest⟩
    simp only [mapEach, leavesEach, List.filter_append, List.flatMap_append, he, hes hrest]

/-- A change applies once to each node without blocks of a statement. -/
theorem filter_leaves_mapStmt (f : Expr → Expr) (e : Expr) :
    ((mapStmt f e).leaves).filter (!·.isDone) =
      (e.leaves.flatMap fun e => (f e).leaves).filter (!·.isDone) := by
  induction e using nested_induct with
  | leaf e he => rw [mapStmt_of_form f he, leaves_of_form he, List.flatMap_singleton]
  | branch cond yes no ihyes ihno =>
    have hyes := filter_leavesEach_of_forall ihyes
    have hno := filter_leavesEach_of_forall ihno
    rw [leaves, List.flatMap_append, List.filter_append, ← hyes, ← hno, ← List.filter_append]
    rfl
  | loop bound counter body ih => exact filter_leavesEach_of_forall ih
  | scope body ih => exact filter_leavesEach_of_forall ih

/-- Changes of statements obey the laws of a functor.  Let a block and all blocks in it be sealed.
If a change gives nodes with sealed blocks for such nodes, then each block of the changed block has
exactly one end marker, in last place.  The change that keeps all nodes keeps the block.  Two
changes one after the other are one change, if the first one makes no node with blocks out of a node
without, and the second one keeps end markers.  And a change applies once to each node without
blocks, at every level and with the end markers. -/
theorem mapStmts_lawful {block : Block} (h : block.SealedThroughout) :
    (∀ f : Expr → Expr, (∀ e, e.SealedThroughout → (f e).SealedThroughout) →
        ∀ inner ∈ (mapStmts f block).blocks,
          inner.countP Expr.isDone = 1 ∧ inner.getLast? = some .done) ∧
      mapStmts id block = block ∧
      (∀ f g : Expr → Expr, f .done = .done →
        (∀ e, e.SealedThroughout → e.form ≠ .control → (g e).form ≠ .control) →
          mapStmts f (mapStmts g block) = mapStmts (f ∘ g) block) ∧
      ∀ f : Expr → Expr, (leavesEach (mapStmts f block)).filter (!·.isDone) =
        ((leavesEach block).flatMap fun e => (f e).leaves).filter (!·.isDone) := by
  refine ⟨fun f hf inner hinner => ?_, ?_, fun f g hf hg => ?_, fun f => ?_⟩
  · exact isSealed_iff.mp (sealedThroughout_mapStmts h hf inner hinner)
  · exact mapStmts_id_of_forall h fun e _ => mapStmt_id e
  · exact mapStmts_mapStmts_of_forall hf h fun e _ => mapStmt_mapStmt hf hg e
  · exact filter_leavesEach_of_forall fun e _ => filter_leaves_mapStmt f e

/-- A change that drops comments and puts one at the end of each block. -/
def remarkEnd : Expr → Expr
  | .lineComment _ => .done
  | .done => .lineComment "end"
  | e => e

/-- A block with a comment, an output, and a loop around a branch whose first block is empty. -/
def annotated : Block :=
  ofStmts [.lineComment "first", .output "a" (.int 1), .loop (.int 3) none (ofStmts
    [.branch (.ref "c") (ofStmts []) (ofStmts [.lineComment "no", .output "b" (.int 2)])])]

/-- Changes of a block drop and insert nodes at each level, and join to one change. -/
theorem mapStmts_lawful_annotated :
    (annotated.SealedThroughout ∧ Shader.outputToUpdate .done = .done ∧
      (∀ e : Expr, e.SealedThroughout → (remarkEnd e).SealedThroughout) ∧
      ∀ e : Expr, e.SealedThroughout → e.form ≠ .control → (remarkEnd e).form ≠ .control) ∧
    mapStmts remarkEnd annotated = ofStmts [.output "a" (.int 1), .loop (.int 3) none (ofStmts
      [.branch (.ref "c") (ofStmts [.lineComment "end"])
        (ofStmts [.output "b" (.int 2), .lineComment "end"]), .lineComment "end"]),
      .lineComment "end"] ∧
    (∀ inner ∈ (mapStmts remarkEnd annotated).blocks,
      inner.countP Expr.isDone = 1 ∧ inner.getLast? = some .done) ∧
    mapStmts id annotated = annotated ∧
    mapStmts Shader.outputToUpdate (mapStmts remarkEnd annotated) =
      mapStmts (Shader.outputToUpdate ∘ remarkEnd) annotated := by
  have hplain : ∀ {e : Expr}, e.blocks = [] → e.SealedThroughout := by
    intro e he block hblock
    rw [he] at hblock
    cases hblock
  have hsealed : annotated.SealedThroughout := by
    refine sealedThroughout_ofStmts ?_
    simp only [List.forall_mem_cons, List.not_mem_nil, false_implies, implies_true, and_true]
    refine ⟨hplain rfl, hplain rfl, sealedThroughout_loop.mpr ⟨hplain rfl, ?_⟩⟩
    refine sealedThroughout_ofStmts (List.forall_mem_singleton.mpr ?_)
    refine sealedThroughout_branch.mpr ⟨hplain rfl, sealedThroughout_ofStmts (by simp), ?_⟩
    refine sealedThroughout_ofStmts ?_
    simp only [List.forall_mem_cons, List.not_mem_nil, false_implies, implies_true, and_true]
    exact ⟨hplain rfl, hplain rfl⟩
  have hblocks : ∀ e : Expr, e.SealedThroughout → (remarkEnd e).SealedThroughout := by
    intro e he
    cases e with
    | lineComment | done => exact hplain rfl
    | _ => exact he
  have hform : ∀ e : Expr, e.SealedThroughout → e.form ≠ .control →
      (remarkEnd e).form ≠ .control := by
    intro e _ he
    cases e with
    | lineComment | done => simp [remarkEnd, form]
    | _ => exact he
  rcases mapStmts_lawful hsealed with ⟨hmarkers, hid, hcomp, -⟩
  exact ⟨⟨hsealed, rfl, hblocks, hform⟩, rfl, hmarkers remarkEnd hblocks, hid,
    hcomp Shader.outputToUpdate remarkEnd rfl hform⟩

end Block

end ShaderLang
