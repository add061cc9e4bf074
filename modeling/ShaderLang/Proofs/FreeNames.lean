import Mathlib.Tactic.Tauto
import ShaderLang.Scope

/-!
# Free names

The free names of a body are those that it uses at a place where the body itself has not bound
them.  They are defined here without an environment, by what each node uses and binds, so that they
can stand beside the lint, which carries an environment of visible names.

Main results:

- Theorem `inBlock_eq_foldl`: the lint notes the free names, one after the other.
- Theorem `mem_inBlock_iff`: the lint notes exactly the free names that are not visible.
- Theorem `unresolved_eq_nil_iff`: a body is clean exactly if all its free names are visible.
- Theorem `mem_freeInBlock_mapEach`: a change of the statements of a body, also of those in nested
  blocks, keeps the free names if the change of a single node does.
-/

namespace ShaderLang

namespace Expr

/-- The name that a statement binds for the rest of its block. -/
def binds? : Expr → Option String
  | mutable _ name _ | uninit _ name | constant _ name _ => some name
  | _ => none

end Expr

/-- The names that the statements of a block bind in it, in order. -/
def Block.ownNames (block : List Expr) : List String :=
  block.filterMap Expr.binds?

theorem Block.ownNames_cons (e : Expr) (es : List Expr) :
    ownNames (e :: es) = e.binds?.toList ++ ownNames es := by
  cases hbinds : e.binds? <;> simp [ownNames, hbinds]

namespace Scope

/-! ## Definition -/

mutual

/-- The free names of an expression, in the order of use.  A binding in the place of a value uses
nothing. -/
def freeInExpr : Expr → List String
  | .ref name => [name]
  | .update name value | .output name value => name :: freeInExpr value
  | .call name args => name :: freeInEach args
  | .binary _ lhs rhs => freeInExpr lhs ++ freeInExpr rhs
  | .field base _ => freeInExpr base
  | .index base position => freeInExpr base ++ freeInExpr position
  | .vec2 x y => freeInExpr x ++ freeInExpr y
  | .vec3 x y z => freeInExpr x ++ freeInExpr y ++ freeInExpr z
  | .vec4 x y z w => freeInExpr x ++ freeInExpr y ++ freeInExpr z ++ freeInExpr w
  | .mat4 items | .array items => freeInEach items
  | .branch cond yes no => freeInExpr cond ++ freeInBlock yes ++ freeInBlock no
  | .loop bound counter body =>
    freeInExpr bound ++ (freeInBlock body).filter (counter != some ·)
  | .scope body => freeInBlock body
  | .mutable .. | .uninit .. | .constant .. => []
  | .int _ | .bool _ | .float _ | .double _ => []
  | .lineComment _ | .blockComment _ | .done => []

/-- The free names of some expressions. -/
def freeInEach : List Expr → List String
  | [] => []
  | e :: es => freeInExpr e ++ freeInEach es

/-- The free names of a block: a binding hides its name from the statements after it, but not from
its own value. -/
def freeInBlock : List Expr → List String
  | [] => []
  | .mutable _ name value :: rest => freeInExpr value ++ (freeInBlock rest).filter (name != ·)
  | .constant _ name value :: rest => freeInExpr value ++ (freeInBlock rest).filter (name != ·)
  | .uninit _ name :: rest => (freeInBlock rest).filter (name != ·)
  | e :: rest => freeInExpr e ++ freeInBlock rest

end

/-- The free names of a statement: those of the value of a binding, or else those of the expression
that it is. -/
def freeInStmt : Expr → List String
  | .mutable _ _ value | .constant _ _ value => freeInExpr value
  | .uninit .. => []
  | e => freeInExpr e

/-! ## Blocks -/

/-- Where nothing is bound, no name is left out. -/
theorem filter_none_bne_some (names : List String) : names.filter (none != some ·) = names :=
  List.filter_eq_self.mpr fun _ _ => rfl

/-- The free names of a block are those of its first statement, and those of the others that the
first does not bind. -/
theorem freeInBlock_cons (e : Expr) (rest : List Expr) :
    freeInBlock (e :: rest) = freeInStmt e ++ (freeInBlock rest).filter (e.binds? != some ·) := by
  cases e with
  | mutable | uninit | constant => rfl
  | _ =>
    simp only [Expr.binds?, filter_none_bne_some]
    rfl

theorem mem_freeInBlock_cons {x : String} {e : Expr} {rest : List Expr} :
    x ∈ freeInBlock (e :: rest) ↔
      x ∈ freeInStmt e ∨ (x ∈ freeInBlock rest ∧ e.binds? ≠ some x) := by
  rw [freeInBlock_cons, List.mem_append, List.mem_filter, bne_iff_ne]

/-- What the first statements of a block bind is not free in the statements after them. -/
theorem mem_freeInBlock_append {x : String} {first rest : List Expr} :
    x ∈ freeInBlock (first ++ rest) ↔
      x ∈ freeInBlock first ∨ (x ∈ freeInBlock rest ∧ ∀ e ∈ first, e.binds? ≠ some x) := by
  induction first with
  | nil => simp [freeInBlock]
  | cons e first ih =>
    rw [List.cons_append, mem_freeInBlock_cons, mem_freeInBlock_cons, ih]
    simp only [List.forall_mem_cons]
    tauto

/-- An end marker uses and binds nothing. -/
theorem mem_freeInBlock_done {x : String} {rest : List Expr} :
    x ∈ freeInBlock (.done :: rest) ↔ x ∈ freeInBlock rest := by
  simp [freeInBlock, freeInExpr]

/-- Setting end markers right changes no free name. -/
@[simp]
theorem mem_freeInBlock_ofStmts {x : String} {exprs : List Expr} :
    x ∈ freeInBlock (Block.ofStmts exprs) ↔ x ∈ freeInBlock exprs := by
  unfold Block.ofStmts
  induction exprs with
  | nil => simp [freeInBlock, freeInExpr]
  | cons e exprs ih =>
    cases hdone : e.isDone with
    | true =>
      obtain rfl := Expr.isDone_iff.mp hdone
      simpa [Expr.isDone, mem_freeInBlock_done] using ih
    | false =>
      rw [List.filter_cons_of_pos (by simp [hdone]), List.cons_append, mem_freeInBlock_cons,
        mem_freeInBlock_cons, ih]

/-- The statements of a block use no more than the block. -/
theorem mem_freeInBlock_of_mem_stmts {x : String} {block : Block}
    (h : x ∈ freeInBlock (Block.stmts block)) : x ∈ freeInBlock block := by
  rcases List.eq_nil_or_concat block with rfl | ⟨first, last, rfl⟩
  · exact h
  · rw [List.concat_eq_append, mem_freeInBlock_append]
    left
    simpa [Block.stmts] using h

/-! ## The lint -/

/-- A name is noted if it was noted before, or if it is the one to note and is not visible. -/
theorem mem_note_iff {env : Env} {missing : List String} {name x : String} :
    x ∈ note env missing name ↔ x ∈ missing ∨ (x = name ∧ env.resolves x = false) := by
  unfold note
  split
  · rename_i hseen
    simp only [Bool.or_eq_true, List.contains_iff_mem] at hseen
    constructor
    · exact Or.inl
    · rintro (hx | ⟨rfl, hx⟩)
      · exact hx
      · simpa [hx] using hseen
  · rename_i hnew
    simp only [Bool.or_eq_true, not_or, Bool.not_eq_true] at hnew
    simp only [List.mem_append, List.mem_singleton]
    constructor
    · rintro (hx | rfl)
      · exact Or.inl hx
      · exact Or.inr ⟨rfl, hnew.1⟩
    · rintro (hx | ⟨rfl, -⟩)
      · exact Or.inl hx
      · exact Or.inr rfl

/-- Names are noted if they were noted before, or if they are among those to note and are not
visible. -/
theorem mem_foldl_note_iff {env : Env} {missing names : List String} {x : String} :
    x ∈ names.foldl (note env) missing ↔ x ∈ missing ∨ (x ∈ names ∧ env.resolves x = false) := by
  induction names generalizing missing with
  | nil => simp
  | cons name names ih =>
    rw [List.foldl_cons, ih, mem_note_iff, List.mem_cons]
    tauto

/-- A block without bindings of its own sees what is visible around it. -/
theorem note_child (env : Env) : note env.child = note env := by
  funext missing name
  simp [note]

/-- Where a name is bound, all others are noted as before. -/
theorem foldl_note_bind (env : Env) (bound : String) (missing names : List String) :
    names.foldl (note (env.bind bound)) missing =
      (names.filter (bound != ·)).foldl (note env) missing := by
  rw [List.foldl_filter]
  congr
  funext missing name
  by_cases hname : bound = name
  · simp [note, Env.resolves_bind, hname]
  · simp [note, Env.resolves_bind, hname, Ne.symm hname]

mutual

/-- The lint notes the free names of an expression in their order. -/
theorem inExpr_eq_foldl (env : Env) (missing : List String) (e : Expr) :
    inExpr env missing e = (freeInExpr e).foldl (note env) missing := by
  cases e with
  | ref name => rfl
  | update name value | output name value => exact inExpr_eq_foldl env _ value
  | call name args => exact inEach_eq_foldl env _ args
  | field base name => exact inExpr_eq_foldl env _ base
  | binary op a b | index a b | vec2 a b =>
    rw [inExpr, freeInExpr, List.foldl_append, inExpr_eq_foldl env _ a, inExpr_eq_foldl env _ b]
  | vec3 a b c =>
    rw [inExpr, freeInExpr, List.foldl_append, List.foldl_append, inExpr_eq_foldl env _ a,
      inExpr_eq_foldl env _ b, inExpr_eq_foldl env _ c]
  | vec4 a b c d =>
    rw [inExpr, freeInExpr, List.foldl_append, List.foldl_append, List.foldl_append,
      inExpr_eq_foldl env _ a, inExpr_eq_foldl env _ b, inExpr_eq_foldl env _ c,
      inExpr_eq_foldl env _ d]
  | mat4 items | array items => exact inEach_eq_foldl env _ items
  | branch cond yes no =>
    rw [inExpr, freeInExpr, List.foldl_append, List.foldl_append, inExpr_eq_foldl env _ cond,
      inBlock_eq_foldl _ _ yes, inBlock_eq_foldl _ _ no, note_child]
  | loop bound counter body =>
    rw [freeInExpr, List.foldl_append, ← inExpr_eq_foldl env _ bound]
    cases counter with
    | none => rw [filter_none_bne_some, inExpr, inBlock_eq_foldl _ _ body, note_child]
    | some name =>
      rw [inExpr, inBlock_eq_foldl _ _ body, foldl_note_bind, note_child]
      rfl
  | scope body => rw [inExpr, freeInExpr, inBlock_eq_foldl _ _ body, note_child]
  | mutable | uninit | constant | int | bool | float | double | lineComment | blockComment | done =>
    rfl

/-- The lint notes the free names of some expressions in their order. -/
theorem inEach_eq_foldl (env : Env) (missing : List String) (es : List Expr) :
    inEach env missing es = (freeInEach es).foldl (note env) missing := by
  cases es with
  | nil => rfl
  | cons e es =>
    rw [inEach, freeInEach, List.foldl_append, inExpr_eq_foldl env _ e, inEach_eq_foldl env _ es]

/-- The lint notes the free names of a block in their order. -/
theorem inBlock_eq_foldl (env : Env) (missing : List String) (es : List Expr) :
    inBlock env missing es = (freeInBlock es).foldl (note env) missing := by
  cases es with
  | nil => rfl
  | cons e rest =>
    cases e with
    | mutable ty name value | constant ty name value =>
      rw [inBlock, freeInBlock, List.foldl_append, inExpr_eq_foldl env _ value,
        inBlock_eq_foldl _ _ rest, foldl_note_bind]
    | uninit ty name => rw [inBlock, freeInBlock, inBlock_eq_foldl _ _ rest, foldl_note_bind]
    | _ =>
      simp only [inBlock, freeInBlock]
      rw [List.foldl_append, ← inExpr_eq_foldl env _ _, inBlock_eq_foldl _ _ rest]

end

/-- The lint notes the free names of a block that are not visible. -/
theorem mem_inBlock_iff {x : String} (env : Env) (missing : List String) (es : List Expr) :
    x ∈ inBlock env missing es ↔
      x ∈ missing ∨ (x ∈ freeInBlock es ∧ env.resolves x = false) := by
  rw [inBlock_eq_foldl, mem_foldl_note_iff]

/-! ## Changed statements -/

section Mapped

variable {f : Expr → Expr}

/-- Changing a statement keeps the name that it binds, if the change of a single node does. -/
theorem binds?_mapStmt (hbinds : ∀ e, (f e).binds? = e.binds?) (e : Expr) :
    (Block.mapStmt f e).binds? = e.binds? := by
  cases e with
  | branch | loop | scope => rfl
  | _ => exact hbinds _

mutual

/-- Changing a statement keeps its free names, if the change of a single node does. -/
theorem mem_freeInStmt_mapStmt (hfree : ∀ e, freeInStmt (f e) = freeInStmt e)
    (hbinds : ∀ e, (f e).binds? = e.binds?) {x : String} (e : Expr) :
    x ∈ freeInStmt (Block.mapStmt f e) ↔ x ∈ freeInStmt e := by
  cases e with
  | branch cond yes no =>
    have hyes := mem_freeInBlock_mapEach hfree hbinds (x := x) yes
    have hno := mem_freeInBlock_mapEach hfree hbinds (x := x) no
    simp [Block.mapStmt, freeInStmt, freeInExpr, hyes, hno]
  | loop bound counter body =>
    have hbody := mem_freeInBlock_mapEach hfree hbinds (x := x) body
    simp [Block.mapStmt, freeInStmt, freeInExpr, hbody]
  | scope body =>
    have hbody := mem_freeInBlock_mapEach hfree hbinds (x := x) body
    simp [Block.mapStmt, freeInStmt, freeInExpr, hbody]
  | _ => simp only [Block.mapStmt, hfree]

/-- Changing each statement keeps the free names of a block. -/
theorem mem_freeInBlock_mapEach (hfree : ∀ e, freeInStmt (f e) = freeInStmt e)
    (hbinds : ∀ e, (f e).binds? = e.binds?) {x : String} (es : List Expr) :
    x ∈ freeInBlock (Block.mapEach f es) ↔ x ∈ freeInBlock es := by
  cases es with
  | nil => rfl
  | cons e es =>
    rw [Block.mapEach, mem_freeInBlock_cons, mem_freeInBlock_cons,
      mem_freeInStmt_mapStmt hfree hbinds e, mem_freeInBlock_mapEach hfree hbinds es,
      binds?_mapStmt hbinds]

end

end Mapped

end Scope

/-- A body is clean exactly if all its free names are visible. -/
theorem unresolved_eq_nil_iff {env : Env} {body : Block} :
    unresolved env body = [] ↔ ∀ x ∈ Scope.freeInBlock body, env.resolves x = true := by
  rw [unresolved, List.eq_nil_iff_forall_not_mem]
  simp only [Scope.mem_inBlock_iff, Env.resolves_child, List.not_mem_nil, false_or, not_and,
    Bool.not_eq_false]

end ShaderLang
