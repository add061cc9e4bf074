import ShaderLang.Proofs.Composite

/-!
# Placement of nodes

The language does not tell statements from expressions, but not every node can stand everywhere:
where a value is needed only values can stand, at every depth, and a block holds statements.  The
names and the comments of a tree may be restricted at the same time, to those of a vocabulary.

Main results:

- Theorem `areStmts_ofStmts_iff`: setting end markers right misplaces nothing.
- Theorem `areStmts_mapEach`: a change of the statements of a block misplaces nothing, if the change
  of a single statement does not.
- Theorem `areStmts_composite`: a composite of shaders misplaces nothing.
-/

namespace ShaderLang

/-! ## Definition -/

/-- What may stand in a tree: names of variables and functions, names of fields, and comments. -/
structure Vocabulary where
  name : String → Prop
  field : String → Prop
  remark : Expr → Prop

/-- The vocabulary of some names, with any fields and comments. -/
def Vocabulary.ofNames (name : String → Prop) : Vocabulary :=
  ⟨name, fun _ => True, fun _ => True⟩

/-- A vocabulary with the links of compositions. -/
def Vocabulary.linked (allowed : Vocabulary) : Vocabulary :=
  { allowed with name := fun name => allowed.name name ∨ ∃ i, name = Word.link i }

namespace Expr

mutual

/-- A node is a value at every depth, and its names are allowed. -/
def IsValue (allowed : Vocabulary) : Expr → Prop
  | .int _ | .bool _ | .float _ | .double _ => True
  | .ref name => allowed.name name
  | .call name args => allowed.name name ∧ AreValues allowed args
  | .binary _ lhs rhs => IsValue allowed lhs ∧ IsValue allowed rhs
  | .field base name => IsValue allowed base ∧ allowed.field name
  | .index base position => IsValue allowed base ∧ IsValue allowed position
  | .vec2 x y => IsValue allowed x ∧ IsValue allowed y
  | .vec3 x y z => IsValue allowed x ∧ IsValue allowed y ∧ IsValue allowed z
  | .vec4 x y z w =>
    IsValue allowed x ∧ IsValue allowed y ∧ IsValue allowed z ∧ IsValue allowed w
  | .mat4 items | .array items => AreValues allowed items
  | _ => False

/-- All of some nodes are values. -/
def AreValues (allowed : Vocabulary) : List Expr → Prop
  | [] => True
  | e :: es => IsValue allowed e ∧ AreValues allowed es

end

mutual

/-- A node can stand as a statement, every node in it stands where it can, and its names and
comments are allowed. -/
def IsStmt (allowed : Vocabulary) : Expr → Prop
  | .mutable _ name value | .constant _ name value => allowed.name name ∧ value.IsValue allowed
  | .update name value | .output name value => allowed.name name ∧ value.IsValue allowed
  | .uninit _ name => allowed.name name
  | .branch cond yes no =>
    cond.IsValue allowed ∧ AreStmts allowed yes ∧ AreStmts allowed no ∧ Block.IsSealed no
  | .loop bound counter body =>
    bound.IsValue allowed ∧ (∀ name ∈ counter, allowed.name name) ∧ AreStmts allowed body
  | .scope body => AreStmts allowed body
  | .lineComment text => allowed.remark (.lineComment text)
  | .blockComment text => allowed.remark (.blockComment text)
  | .done => True
  | e => e.IsValue allowed

/-- All of some nodes can stand as statements. -/
def AreStmts (allowed : Vocabulary) : List Expr → Prop
  | [] => True
  | e :: es => IsStmt allowed e ∧ AreStmts allowed es

end

variable {allowed : Vocabulary}

/-- Statements are statements one by one. -/
theorem areStmts_iff {es : List Expr} : AreStmts allowed es ↔ ∀ e ∈ es, e.IsStmt allowed := by
  induction es with
  | nil => simp [AreStmts]
  | cons e es ih => simp [AreStmts, ih]

/-- A value can stand as a statement. -/
theorem IsValue.isStmt {e : Expr} (h : e.IsValue allowed) : e.IsStmt allowed := by
  cases e with
  | int | bool | float | double | vec2 | vec3 | vec4 | mat4 | ref | call | binary | field | index
  | array => exact h
  | _ => exact h.elim

mutual

/-- Links may be allowed in a value. -/
theorem IsValue.linked {e : Expr} (h : e.IsValue allowed) : e.IsValue allowed.linked := by
  cases e with
  | int | bool | float | double => exact trivial
  | ref name => exact Or.inl h
  | call name args => exact ⟨Or.inl h.1, AreValues.linked h.2⟩
  | field base name => exact ⟨IsValue.linked h.1, h.2⟩
  | binary op x y | index x y | vec2 x y => exact ⟨IsValue.linked h.1, IsValue.linked h.2⟩
  | vec3 x y z => exact ⟨IsValue.linked h.1, IsValue.linked h.2.1, IsValue.linked h.2.2⟩
  | vec4 x y z w =>
    exact ⟨IsValue.linked h.1, IsValue.linked h.2.1, IsValue.linked h.2.2.1,
      IsValue.linked h.2.2.2⟩
  | mat4 items | array items =>
    have hitems : AreValues allowed items := h
    exact AreValues.linked hitems
  | _ => exact h.elim

/-- Links may be allowed in values. -/
theorem AreValues.linked {es : List Expr} (h : AreValues allowed es) :
    AreValues allowed.linked es := by
  cases es with
  | nil => exact trivial
  | cons e es => exact ⟨IsValue.linked h.1, AreValues.linked h.2⟩

end

mutual

/-- Links may be allowed in a statement. -/
theorem IsStmt.linked {e : Expr} (h : e.IsStmt allowed) : e.IsStmt allowed.linked := by
  cases e with
  | mutable ty name value | constant ty name value | update name value | output name value =>
    exact ⟨Or.inl h.1, h.2.linked⟩
  | uninit ty name => exact Or.inl h
  | branch cond yes no =>
    exact ⟨h.1.linked, AreStmts.linked h.2.1, AreStmts.linked h.2.2.1, h.2.2.2⟩
  | loop bound counter body =>
    exact ⟨h.1.linked, fun name hname => Or.inl (h.2.1 name hname), AreStmts.linked h.2.2⟩
  | scope body =>
    have hbody : AreStmts allowed body := h
    exact AreStmts.linked hbody
  | lineComment | blockComment | done => exact h
  | int | bool | float | double | vec2 | vec3 | vec4 | mat4 | ref | call | binary | field | index
  | array => exact (IsValue.linked h).isStmt

/-- Links may be allowed in statements. -/
theorem AreStmts.linked {es : List Expr} (h : AreStmts allowed es) :
    AreStmts allowed.linked es := by
  cases es with
  | nil => exact trivial
  | cons e es => exact ⟨IsStmt.linked h.1, AreStmts.linked h.2⟩

end

/-! ## Blocks -/

/-- Setting end markers right misplaces nothing. -/
theorem areStmts_ofStmts_iff {es : List Expr} :
    AreStmts allowed (Block.ofStmts es) ↔ AreStmts allowed es := by
  simp only [areStmts_iff, Block.ofStmts, List.mem_append, List.mem_filter, List.mem_singleton]
  constructor
  · intro h e he
    cases hdone : e.isDone with
    | true =>
      obtain rfl := Expr.isDone_iff.mp hdone
      exact trivial
    | false => exact h e (Or.inl ⟨he, by simp [hdone]⟩)
  · rintro h e (⟨he, -⟩ | rfl)
    · exact h e he
    · exact trivial

/-- The statements of a block are statements. -/
theorem AreStmts.stmts {block : Block} (h : AreStmts allowed block) :
    AreStmts allowed (Block.stmts block) :=
  areStmts_iff.mpr fun e he => areStmts_iff.mp h e (List.dropLast_subset block he)

section Mapped

variable {f : Expr → Expr}

mutual

/-- Changing a statement misplaces nothing, if the change of a single node does not. -/
theorem isStmt_mapStmt (hf : ∀ e, e.IsStmt allowed → (f e).IsStmt allowed) (e : Expr)
    (h : e.IsStmt allowed) : (Block.mapStmt f e).IsStmt allowed := by
  cases e with
  | branch cond yes no =>
    obtain ⟨hcond, hyes, hno, -⟩ := h
    exact ⟨hcond, areStmts_ofStmts_iff.mpr (areStmts_mapEach hf yes hyes),
      areStmts_ofStmts_iff.mpr (areStmts_mapEach hf no hno), Block.isSealed_ofStmts _⟩
  | loop bound counter body =>
    obtain ⟨hbound, hcounter, hbody⟩ := h
    exact ⟨hbound, hcounter, areStmts_ofStmts_iff.mpr (areStmts_mapEach hf body hbody)⟩
  | scope body => exact areStmts_ofStmts_iff.mpr (areStmts_mapEach hf body h)
  | _ => exact hf _ h

/-- Changing each statement misplaces nothing. -/
theorem areStmts_mapEach (hf : ∀ e, e.IsStmt allowed → (f e).IsStmt allowed) (es : List Expr)
    (h : AreStmts allowed es) : AreStmts allowed (Block.mapEach f es) := by
  cases es with
  | nil => exact trivial
  | cons e es => exact ⟨isStmt_mapStmt hf e h.1, areStmts_mapEach hf es h.2⟩

end

end Mapped

end Expr

/-! ## Composites -/

namespace Shader

open ShaderLang.Expr

variable {allowed : Vocabulary} {down up : Shader}

/-- Rebindings are statements. -/
theorem areStmts_rebindings {outputs : List Global} {pairs : List (Global × Global)}
    (hpairs : ∀ pair ∈ pairs, allowed.name pair.1.name ∧ allowed.name pair.2.name)
    (hlinks : ∀ i, allowed.name (Word.link i)) : AreStmts allowed (rebindings outputs pairs) := by
  rw [areStmts_iff]
  intro e he
  obtain ⟨pair, hmem, rfl | ⟨i, rfl | rfl⟩⟩ := exists_eq_rebind he
  · exact ⟨(hpairs pair hmem).2, (hpairs pair hmem).1⟩
  · exact ⟨hlinks i, (hpairs pair hmem).1⟩
  · exact ⟨(hpairs pair hmem).2, hlinks i⟩

/-- A composite of shaders misplaces nothing. -/
theorem areStmts_composite (stage : Stage) (hup : AreStmts allowed up.body)
    (hdown : AreStmts allowed down.body) (houtputs : ∀ x ∈ up.outputNames, allowed.name x)
    (hinputs : ∀ x ∈ down.inputNames, allowed.name x) (hlinks : ∀ i, allowed.name (Word.link i)) :
    AreStmts allowed (composite stage down up).body := by
  have hpairs : ∀ pair ∈ rebound down up,
      allowed.name pair.1.name ∧ allowed.name pair.2.name := by
    intro pair hpair
    obtain ⟨houtput, hinput⟩ := List.of_mem_zip (List.mem_filter.mp hpair).1
    exact ⟨houtputs _ (List.mem_map_of_mem houtput), hinputs _ (List.mem_map_of_mem hinput)⟩
  have hfirst : AreStmts allowed (Block.mapStmts outputToUpdate up.body) := by
    refine areStmts_ofStmts_iff.mpr (areStmts_mapEach (fun e he => ?_) up.body hup)
    cases e <;> exact he
  have hsecond : AreStmts allowed (fedBody down up) := by
    rw [fedBody, areStmts_ofStmts_iff, areStmts_iff]
    intro e he
    rcases List.mem_append.mp he with he | he
    · exact areStmts_iff.mp (areStmts_rebindings hpairs hlinks) e he
    · exact areStmts_iff.mp hdown.stmts e he
  rw [composite, areStmts_ofStmts_iff, areStmts_iff, compositeStmts]
  intro e he
  rcases List.mem_append.mp he with he | he
  · obtain ⟨output, houtput, rfl⟩ := List.mem_map.mp he
    exact houtputs _ (List.mem_map_of_mem houtput)
  · simp only [List.mem_cons, List.not_mem_nil, or_false] at he
    rcases he with rfl | rfl
    · exact hfirst
    · exact hsecond

end Shader

end ShaderLang
