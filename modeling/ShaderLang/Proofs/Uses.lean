import Mathlib.Data.List.Basic
import Mathlib.Tactic.Choose
import ShaderLang.Proofs.FreeNames

/-!
# Uses of names

A body is a tree of portions: blocks, their statements, and expressions in the place of values.  A
place in it is the way from the whole body to one of its portions, and the names that are bound on
this way are those that the portion sees beside the environment.  Places are ordered as their
portions stand in the text.

Main results:

- Theorem `Portion.induct`: what portions inherit from those inside of them holds of all.
- Theorem `Portion.free_eq`: the free names of a portion, from its own use and its portions.
- Theorem `Portion.exists_listsUses`: the free names are those of the unbound uses, in the order of
  their places.
-/

namespace ShaderLang

open Block (ownNames ownNames_cons)

/-! ## Uses of names at places -/

/-- A part of a body. -/
inductive Portion where
  /-- An expression in the place of a value. -/
  | value (e : Expr)
  /-- A statement of a block. -/
  | stmt (e : Expr)
  | block (es : List Expr)

/-- A portion directly inside another one, with the names that the other one binds for it. -/
structure Inner where
  bound : List String
  portion : Portion

namespace Expr

/-- The name that a node uses itself: that of a reference, the target of an assignment, or the name
of a call. -/
def used? : Expr → Option String
  | ref name | update name _ | output name _ | call name _ => some name
  | _ => none

/-- The portions of a node in the order of the text.  A counter is bound in the body of its loop
only, and a binding in the place of a value has no portions. -/
def inner : Expr → List Inner
  | update _ value | output _ value => [⟨[], .value value⟩]
  | call _ items | mat4 items | array items => items.map fun e => ⟨[], .value e⟩
  | field base _ => [⟨[], .value base⟩]
  | binary _ x y | index x y | vec2 x y => [⟨[], .value x⟩, ⟨[], .value y⟩]
  | vec3 x y z => [⟨[], .value x⟩, ⟨[], .value y⟩, ⟨[], .value z⟩]
  | vec4 x y z w => [⟨[], .value x⟩, ⟨[], .value y⟩, ⟨[], .value z⟩, ⟨[], .value w⟩]
  | branch cond yes no => [⟨[], .value cond⟩, ⟨[], .block yes⟩, ⟨[], .block no⟩]
  | loop bound counter body => [⟨[], .value bound⟩, ⟨counter.toList, .block body⟩]
  | scope body => [⟨[], .block body⟩]
  | mutable .. | uninit .. | constant .. => []
  | ref _ | int _ | bool _ | float _ | double _ => []
  | lineComment _ | blockComment _ | done => []

end Expr

namespace Portion

/-- The name that a portion uses itself. -/
def used? : Portion → Option String
  | value e | stmt e => e.used?
  | block _ => none

/-- The portions of a portion.  A binding that is a statement has its value as a portion, and each
statement of a block sees what the statements before it bind. -/
def inner : Portion → List Inner
  | value e => e.inner
  | stmt (.mutable _ _ e) | stmt (.constant _ _ e) => [⟨[], value e⟩]
  | stmt e => e.inner
  | block es => es.mapIdx fun i e => ⟨ownNames (es.take i), stmt e⟩

/-- A name is used at a place of a portion.  The place tells which portion to enter at each step,
and `bound` are the names that are bound on the way. -/
inductive Uses : Portion → (place : List Nat) → (bound : List String) → (name : String) → Prop where
  | here {portion : Portion} {name : String} (hused : portion.used? = some name) :
      Uses portion [] [] name
  | inside {portion : Portion} {i : Nat} {inner : Inner} {place : List Nat} {bound : List String}
      {name : String} (hinner : portion.inner[i]? = some inner)
      (huses : Uses inner.portion place bound name) :
      Uses portion (i :: place) (inner.bound ++ bound) name

/-! ## Induction on portions -/

/-- The size of the tree of a portion. -/
noncomputable def size : Portion → Nat
  | value e | stmt e => sizeOf e
  | block es => sizeOf es

/-- The portions of a node are smaller than the node. -/
theorem size_lt_of_mem_inner_expr (e : Expr) :
    ∀ inner ∈ e.inner, inner.portion.size < sizeOf e := by
  cases e with
  | call _ items | mat4 items | array items =>
    intro inner h
    rcases List.mem_map.mp h with ⟨item, hitem, rfl⟩
    have hlt := List.sizeOf_lt_of_mem hitem
    simp only [size, Expr.call.sizeOf_spec, Expr.mat4.sizeOf_spec, Expr.array.sizeOf_spec]
    omega
  | _ => simp [Expr.inner, size] <;> omega

/-- The portions of a portion are smaller. -/
theorem size_lt_of_mem_inner {portion : Portion} {inner : Inner} (h : inner ∈ portion.inner) :
    inner.portion.size < portion.size := by
  cases portion with
  | value e => exact size_lt_of_mem_inner_expr e inner h
  | block es =>
    rcases List.mem_mapIdx.mp h with ⟨i, hi, rfl⟩
    exact List.sizeOf_lt_of_mem (List.getElem_mem hi)
  | stmt e =>
    cases e with
    | mutable ty name e | constant ty name e =>
      rcases List.mem_singleton.mp h with rfl
      simp only [size, Expr.mutable.sizeOf_spec, Expr.constant.sizeOf_spec]
      omega
    | _ => exact size_lt_of_mem_inner_expr _ inner h

/-- What holds of a portion if it holds of its own portions holds of all. -/
theorem induct {P : Portion → Prop}
    (h : ∀ portion : Portion, (∀ inner ∈ portion.inner, P inner.portion) → P portion)
    (portion : Portion) : P portion :=
  h portion fun inner _ => induct h inner.portion
termination_by portion.size
decreasing_by exact size_lt_of_mem_inner ‹_›

/-! ## Free names and their places -/

open Scope

/-- The free names of a portion, in the order of use. -/
def free : Portion → List String
  | value e => freeInExpr e
  | stmt e => freeInStmt e
  | block es => freeInBlock es

end Portion

namespace Inner

/-- The free names of a portion that the portion around it does not bind. -/
def free (inner : Inner) : List String :=
  inner.portion.free.filter (· ∉ inner.bound)

@[simp] theorem free_unbound (portion : Portion) : free ⟨[], portion⟩ = portion.free := by
  simp [free]

/-- More names may be bound for a portion. -/
theorem free_bound_append (names bound : List String) (portion : Portion) :
    free ⟨names ++ bound, portion⟩ = (free ⟨bound, portion⟩).filter (· ∉ names) := by
  simp [free, List.filter_filter]

end Inner

namespace Portion

open Scope

/-- The free names of some values are those of each of them. -/
theorem freeInEach_eq_flatMap (es : List Expr) : freeInEach es = es.flatMap freeInExpr := by
  induction es with
  | nil => rfl
  | cons e es ih => rw [freeInEach, ih, List.flatMap_cons]

/-- No name is bound by an optional one exactly if it is another name. -/
theorem decide_not_mem_toList (bound : Option String) :
    (fun x => decide (x ∉ bound.toList)) = (bound != some ·) := by
  funext x
  rw [Bool.eq_iff_iff, decide_eq_true_iff, bne_iff_ne, Option.mem_toList]

/-- The free names of a node are the one it uses and those of its portions. -/
theorem freeInExpr_eq (e : Expr) : freeInExpr e = e.used?.toList ++ e.inner.flatMap Inner.free := by
  cases e with
  | call name items | mat4 items | array items =>
    simp [freeInExpr, Expr.used?, Expr.inner, free, freeInEach_eq_flatMap, List.flatMap_map]
  | loop bound counter body =>
    have hcounter : (freeInBlock body).filter (counter != some ·) =
        Inner.free ⟨counter.toList, block body⟩ := by
      rw [Inner.free, decide_not_mem_toList]
      rfl
    simp [freeInExpr, Expr.used?, Expr.inner, free, hcounter]
  | _ => simp [freeInExpr, Expr.used?, Expr.inner, free]

/-- The statements of a block after the first see what the first binds. -/
theorem inner_block_cons (e : Expr) (es : List Expr) :
    (block (e :: es)).inner = ⟨[], stmt e⟩ ::
      (block es).inner.map fun inner => ⟨e.binds?.toList ++ inner.bound, inner.portion⟩ := by
  rw [inner, List.mapIdx_cons, List.cons.injEq]
  refine ⟨rfl, List.mapIdx_eq_iff.mpr fun i => ?_⟩
  simp [inner, ownNames_cons, Function.comp_def]

/-- A block has the free names of its statements that no earlier statement binds. -/
theorem freeInBlock_eq (es : List Expr) : freeInBlock es = (block es).inner.flatMap Inner.free := by
  induction es with
  | nil => rfl
  | cons e es ih =>
    rw [inner_block_cons, List.flatMap_cons, List.flatMap_map, freeInBlock_cons, ih,
      Inner.free_unbound, List.filter_flatMap]
    simp only [Inner.free_bound_append, decide_not_mem_toList]
    rfl

/-- The free names of a portion are the one it uses and those of its portions. -/
theorem free_eq (portion : Portion) :
    portion.free = portion.used?.toList ++ portion.inner.flatMap Inner.free := by
  cases portion with
  | value e => exact freeInExpr_eq e
  | block es => exact freeInBlock_eq es
  | stmt e =>
    cases e with
    | mutable ty name e | constant ty name e => simp [free, freeInStmt, used?, Expr.used?, inner]
    | uninit ty name => rfl
    | _ => exact freeInExpr_eq _

/-- One place stands before another: it is that of a portion around the other, or it enters an
earlier portion where the ways part. -/
def IsBefore (place other : List Nat) : Prop :=
  List.Lex (· < ·) place other

/-- Some uses are in the order of their places. -/
def IsSorted (uses : List (List Nat × String)) : Prop :=
  uses.Pairwise fun u v => IsBefore u.1 v.1

/-- Some pairs of a place and a name are the unbound uses in a portion, in the order of the places,
and their names are the free names. -/
structure ListsUses (portion : Portion) (uses : List (List Nat × String)) : Prop where
  names : uses.map Prod.snd = portion.free
  sorted : IsSorted uses
  mem_iff : ∀ place name,
    (place, name) ∈ uses ↔ ∃ bound, Uses portion place bound name ∧ name ∉ bound

/-- The unbound uses in a portion inside another one that the other one does not bind, with their
places in the other one. -/
def usesInside (i : Nat) (inner : Inner) (uses : List (List Nat × String)) :
    List (List Nat × String) :=
  (uses.filter (·.2 ∉ inner.bound)).map fun u => (i :: u.1, u.2)

section Inside

variable {i : Nat} {inner : Inner} {uses : List (List Nat × String)}

theorem names_usesInside (h : inner.portion.ListsUses uses) :
    (usesInside i inner uses).map Prod.snd = inner.free := by
  rw [Inner.free, ← h.names, usesInside, List.map_map, List.filter_map]
  rfl

theorem sorted_usesInside (h : inner.portion.ListsUses uses) :
    IsSorted (usesInside i inner uses) := by
  rw [usesInside, IsSorted, List.pairwise_map]
  exact (List.Pairwise.filter _ h.sorted).imp .cons

theorem mem_usesInside_iff (h : inner.portion.ListsUses uses) {place : List Nat} {name : String} :
    (place, name) ∈ usesInside i inner uses ↔
      ∃ rest bound, place = i :: rest ∧ Uses inner.portion rest bound name ∧
        name ∉ inner.bound ++ bound := by
  constructor
  · intro hmem
    rcases List.mem_map.mp hmem with ⟨⟨rest, name⟩, hkept, heq⟩
    cases heq
    rcases List.mem_filter.mp hkept with ⟨hlisted, hbound⟩
    rcases (h.mem_iff rest name).mp hlisted with ⟨bound, huses, hfree⟩
    refine ⟨rest, bound, rfl, huses, ?_⟩
    rw [List.mem_append, not_or]
    exact ⟨of_decide_eq_true hbound, hfree⟩
  · rintro ⟨rest, bound, rfl, huses, hfree⟩
    rw [List.mem_append, not_or] at hfree
    have hlisted := (h.mem_iff rest name).mpr ⟨bound, huses, hfree.2⟩
    exact List.mem_map.mpr
      ⟨(rest, name), List.mem_filter.mpr ⟨hlisted, decide_eq_true hfree.1⟩, rfl⟩

end Inside

section Gathered

variable {portion : Portion} {uses : Inner → List (List Nat × String)}

/-- The use of a portion itself, and then the uses in its portions, one portion after the other. -/
def gathered (portion : Portion) (uses : Inner → List (List Nat × String)) :
    List (List Nat × String) :=
  portion.used?.toList.map ([], ·) ++
    portion.inner.zipIdx.flatMap fun item => usesInside item.2 item.1 (uses item.1)

theorem names_gathered (h : ∀ item ∈ portion.inner.zipIdx, item.1.portion.ListsUses (uses item.1)) :
    (portion.gathered uses).map Prod.snd = portion.free := by
  have hinner : (portion.inner.zipIdx.flatMap fun item =>
      (usesInside item.2 item.1 (uses item.1)).map Prod.snd) =
        portion.inner.flatMap Inner.free := by
    rw [List.flatMap_congr fun item hitem => names_usesInside (h item hitem), ← List.flatMap_map,
      List.zipIdx_map_fst]
  rw [gathered, free_eq, List.map_append, List.map_map, List.map_flatMap, hinner]
  simp [Function.comp_def]

theorem sorted_gathered
    (h : ∀ item ∈ portion.inner.zipIdx, item.1.portion.ListsUses (uses item.1)) :
    IsSorted (portion.gathered uses) := by
  have hindices : portion.inner.zipIdx.Pairwise fun a b => a.2 < b.2 := by
    rw [← List.pairwise_map, List.zipIdx_map_snd]
    exact List.pairwise_lt_range'
  rw [gathered, IsSorted, List.pairwise_append, List.pairwise_flatMap]
  refine ⟨?_, ⟨fun item hitem => sorted_usesInside (h item hitem), ?_⟩, ?_⟩
  · cases portion.used? <;> simp
  · -- an earlier portion has the smaller index
    refine hindices.imp_of_mem fun {a b} ha hb hlt => ?_
    rintro ⟨place, x⟩ hx ⟨other, y⟩ hy
    rcases (mem_usesInside_iff (h a ha)).mp hx with ⟨rest, -, rfl, -⟩
    rcases (mem_usesInside_iff (h b hb)).mp hy with ⟨rest', -, rfl, -⟩
    exact .rel hlt
  · -- a portion stands before what is inside of it
    rintro ⟨place, x⟩ hx ⟨other, y⟩ hy
    rcases List.mem_map.mp hx with ⟨_, -, heq⟩
    cases heq
    rcases List.mem_flatMap.mp hy with ⟨item, hitem, hy⟩
    rcases (mem_usesInside_iff (h item hitem)).mp hy with ⟨rest, -, rfl, -⟩
    exact .nil

theorem mem_gathered_iff
    (h : ∀ item ∈ portion.inner.zipIdx, item.1.portion.ListsUses (uses item.1))
    (place : List Nat) (name : String) :
    (place, name) ∈ portion.gathered uses ↔
      ∃ bound, Uses portion place bound name ∧ name ∉ bound := by
  rw [gathered, List.mem_append, List.mem_map, List.mem_flatMap]
  constructor
  · rintro (⟨x, hused, heq⟩ | ⟨item, hitem, hlisted⟩)
    · cases heq
      exact ⟨[], .here (Option.mem_toList.mp hused), List.not_mem_nil⟩
    · rcases (mem_usesInside_iff (h item hitem)).mp hlisted with ⟨rest, bound, rfl, huses, hfree⟩
      exact ⟨_, .inside (List.mem_zipIdx_iff_getElem?.mp hitem) huses, hfree⟩
  · rintro ⟨bound, huses, hfree⟩
    cases huses with
    | here hused => exact Or.inl ⟨name, Option.mem_toList.mpr hused, rfl⟩
    | @inside _ i inner rest bound _ hinner huses =>
      have hitem : (inner, i) ∈ portion.inner.zipIdx := List.mem_zipIdx_iff_getElem?.mpr hinner
      refine Or.inr ⟨(inner, i), hitem, ?_⟩
      exact (mem_usesInside_iff (h _ hitem)).mpr ⟨rest, bound, rfl, huses, hfree⟩

end Gathered

/-- The unbound uses in a portion can be listed in the order of their places. -/
theorem exists_listsUses (portion : Portion) : ∃ uses, portion.ListsUses uses := by
  induction portion using induct with
  | h portion ih =>
    choose! uses huses using ih
    have hitems : ∀ item ∈ portion.inner.zipIdx, item.1.portion.ListsUses (uses item.1) :=
      fun item hitem => huses item.1 (List.fst_mem_of_mem_zipIdx hitem)
    exact ⟨portion.gathered uses, names_gathered hitems, sorted_gathered hitems,
      mem_gathered_iff hitems⟩

end Portion

end ShaderLang
