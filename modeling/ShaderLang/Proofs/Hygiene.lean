import ShaderLang.Proofs.Signature
import ShaderLang.Proofs.Vocabulary

/-!
# Hygiene of names

No declaration uses a reserved word as a name.  The only reserved words in what a source amounts to
are the links of its compositions, and a link stays in the block that a composition makes for it:
there it is bound once and read once.  So no name of a source is captured by a link, nor by the
counter of a loop that names none.

Main results:

- Theorem `occurrences_of_areStmts`: the names that occur in well-placed statements, at any depth,
  are the allowed ones.
- Theorem `levelsEach_mapEach`: a change of the statements of a block keeps its levels if the change
  of a single node does.
- Theorem `IsHygienic.composite`: a composite of hygienic shaders is hygienic.
- Theorem `hygienic_of_load`: what a source amounts to is hygienic.
-/

namespace ShaderLang

/-! ## Occurrences of names -/

/-- What a name does where it occurs. -/
inductive Role where
  /-- It is bound as a variable. -/
  | bound
  /-- It is bound as a constant. -/
  | fixed
  /-- It is bound as the counter of a loop. -/
  | counts
  /-- Its value is read. -/
  | read
  /-- A variable or an output of the name is assigned. -/
  | assigned
  /-- It is called. -/
  | called
deriving DecidableEq, Repr

/-- A name and what it does at one place. -/
structure Occurrence where
  role : Role
  name : String
deriving DecidableEq, Repr

/-- One block without the blocks in it: the names that occur there, in the order in which they take
effect. -/
structure Level where
  /-- The block is the body of a scope. -/
  inScope : Bool
  occurrences : List Occurrence
deriving DecidableEq, Repr

namespace Expr

mutual

/-- The names that occur in a node outside the blocks in it.  A value is read before its name is
bound or assigned. -/
def occurrences : Expr → List Occurrence
  | .mutable _ name value => occurrences value ++ [⟨.bound, name⟩]
  | .uninit _ name => [⟨.bound, name⟩]
  | .constant _ name value => occurrences value ++ [⟨.fixed, name⟩]
  | .update name value | .output name value => occurrences value ++ [⟨.assigned, name⟩]
  | .branch cond _ _ => occurrences cond
  | .loop bound counter _ => occurrences bound ++ counter.toList.map (⟨.counts, ·⟩)
  | .scope _ => []
  | .ref name => [⟨.read, name⟩]
  | .call name args => occurrencesEach args ++ [⟨.called, name⟩]
  | .binary _ lhs rhs => occurrences lhs ++ occurrences rhs
  | .field base _ => occurrences base
  | .index base position => occurrences base ++ occurrences position
  | .vec2 x y => occurrences x ++ occurrences y
  | .vec3 x y z => occurrences x ++ occurrences y ++ occurrences z
  | .vec4 x y z w => occurrences x ++ occurrences y ++ occurrences z ++ occurrences w
  | .mat4 items | .array items => occurrencesEach items
  | .int _ | .bool _ | .float _ | .double _ => []
  | .lineComment _ | .blockComment _ | .done => []

/-- The names that occur in some nodes outside the blocks in them. -/
def occurrencesEach : List Expr → List Occurrence
  | [] => []
  | e :: es => occurrences e ++ occurrencesEach es

end

mutual

/-- The levels of the blocks in a node, at every depth. -/
def levels : Expr → List Level
  | .mutable _ _ value | .constant _ _ value | .update _ value | .output _ value => levels value
  | .branch cond yes no =>
    levels cond ++ ⟨false, occurrencesEach yes⟩ :: levelsEach yes ++
      ⟨false, occurrencesEach no⟩ :: levelsEach no
  | .loop bound _ body => levels bound ++ ⟨false, occurrencesEach body⟩ :: levelsEach body
  | .scope body => ⟨true, occurrencesEach body⟩ :: levelsEach body
  | .call _ args => levelsEach args
  | .binary _ lhs rhs => levels lhs ++ levels rhs
  | .field base _ => levels base
  | .index base position => levels base ++ levels position
  | .vec2 x y => levels x ++ levels y
  | .vec3 x y z => levels x ++ levels y ++ levels z
  | .vec4 x y z w => levels x ++ levels y ++ levels z ++ levels w
  | .mat4 items | .array items => levelsEach items
  | .uninit .. | .ref _ | .int _ | .bool _ | .float _ | .double _ => []
  | .lineComment _ | .blockComment _ | .done => []

/-- The levels of the blocks in some nodes. -/
def levelsEach : List Expr → List Level
  | [] => []
  | e :: es => levels e ++ levelsEach es

end

theorem occurrencesEach_eq_flatMap (es : List Expr) :
    occurrencesEach es = es.flatMap occurrences := by
  induction es with
  | nil => rfl
  | cons e es ih => rw [occurrencesEach, ih, List.flatMap_cons]

theorem levelsEach_eq_flatMap (es : List Expr) : levelsEach es = es.flatMap levels := by
  induction es with
  | nil => rfl
  | cons e es ih => rw [levelsEach, ih, List.flatMap_cons]

@[simp] theorem occurrencesEach_append (es fs : List Expr) :
    occurrencesEach (es ++ fs) = occurrencesEach es ++ occurrencesEach fs := by
  simp only [occurrencesEach_eq_flatMap, List.flatMap_append]

@[simp] theorem levelsEach_append (es fs : List Expr) :
    levelsEach (es ++ fs) = levelsEach es ++ levelsEach fs := by
  simp only [levelsEach_eq_flatMap, List.flatMap_append]

/-- Setting end markers right changes no occurrence. -/
@[simp] theorem occurrencesEach_ofStmts (es : List Expr) :
    occurrencesEach (Block.ofStmts es) = occurrencesEach es := by
  rw [occurrencesEach_eq_flatMap, Block.flatMap_ofStmts rfl, occurrencesEach_eq_flatMap]

/-- Setting end markers right changes no level. -/
@[simp] theorem levelsEach_ofStmts (es : List Expr) :
    levelsEach (Block.ofStmts es) = levelsEach es := by
  rw [levelsEach_eq_flatMap, Block.flatMap_ofStmts rfl, levelsEach_eq_flatMap]

end Expr

open ShaderLang.Expr ShaderLang.Word

/-- The levels of a body: the body itself, which is no scope, and the blocks in it. -/
def Block.levels (body : Block) : List Level :=
  ⟨false, occurrencesEach body⟩ :: levelsEach body

/-! ## Names of well-placed nodes -/

namespace Expr

variable {allowed : Vocabulary}

/-- All names that occur are allowed. -/
def Allowed (allowed : String → Prop) (os : List Occurrence) : Prop :=
  ∀ o ∈ os, allowed o.name

theorem Allowed.append {allowed : String → Prop} {os more : List Occurrence}
    (h : Allowed allowed os) (hmore : Allowed allowed more) : Allowed allowed (os ++ more) :=
  List.forall_mem_append.mpr ⟨h, hmore⟩

theorem Allowed.single {allowed : String → Prop} {role : Role} {name : String} (h : allowed name) :
    Allowed allowed [⟨role, name⟩] :=
  List.forall_mem_singleton.mpr h

mutual

/-- The names that occur in a value are allowed, and there are no blocks in it. -/
theorem occurrences_of_isValue {e : Expr} (h : e.IsValue allowed) :
    Allowed allowed.name e.occurrences ∧ e.levels = [] := by
  cases e with
  | int | bool | float | double => exact ⟨by simp [Allowed, occurrences], rfl⟩
  | ref name => exact ⟨Allowed.single h, rfl⟩
  | call name args =>
    obtain ⟨hargs, hlevels⟩ := occurrences_of_areValues h.2
    exact ⟨hargs.append (Allowed.single h.1), hlevels⟩
  | field base name => exact occurrences_of_isValue (e := base) h.1
  | binary op x y | index x y | vec2 x y =>
    obtain ⟨hx, hxlevels⟩ := occurrences_of_isValue h.1
    obtain ⟨hy, hylevels⟩ := occurrences_of_isValue h.2
    exact ⟨hx.append hy, by simp [levels, hxlevels, hylevels]⟩
  | vec3 x y z =>
    obtain ⟨hx, hxlevels⟩ := occurrences_of_isValue h.1
    obtain ⟨hy, hylevels⟩ := occurrences_of_isValue h.2.1
    obtain ⟨hz, hzlevels⟩ := occurrences_of_isValue h.2.2
    exact ⟨(hx.append hy).append hz, by simp [levels, hxlevels, hylevels, hzlevels]⟩
  | vec4 x y z w =>
    obtain ⟨hx, hxlevels⟩ := occurrences_of_isValue h.1
    obtain ⟨hy, hylevels⟩ := occurrences_of_isValue h.2.1
    obtain ⟨hz, hzlevels⟩ := occurrences_of_isValue h.2.2.1
    obtain ⟨hw, hwlevels⟩ := occurrences_of_isValue h.2.2.2
    exact ⟨((hx.append hy).append hz).append hw,
      by simp [levels, hxlevels, hylevels, hzlevels, hwlevels]⟩
  | mat4 items | array items =>
    have hitems : AreValues allowed items := h
    exact occurrences_of_areValues hitems
  | _ => exact h.elim

/-- The names that occur in values are allowed, and there are no blocks in them. -/
theorem occurrences_of_areValues {es : List Expr} (h : AreValues allowed es) :
    Allowed allowed.name (occurrencesEach es) ∧ levelsEach es = [] := by
  cases es with
  | nil => exact ⟨by simp [Allowed, occurrencesEach], rfl⟩
  | cons e es =>
    obtain ⟨hfirst, hlevels⟩ := occurrences_of_isValue h.1
    obtain ⟨hrest, hmore⟩ := occurrences_of_areValues h.2
    exact ⟨hfirst.append hrest, by simp [levelsEach, hlevels, hmore]⟩

end

mutual

/-- The names that occur in a well-placed statement are allowed, also in the blocks in it. -/
theorem occurrences_of_isStmt {e : Expr} (h : e.IsStmt allowed) :
    Allowed allowed.name e.occurrences ∧
      ∀ level ∈ e.levels, Allowed allowed.name level.occurrences := by
  cases e with
  | mutable ty name value | constant ty name value | update name value | output name value =>
    obtain ⟨hvalue, hlevels⟩ := occurrences_of_isValue h.2
    exact ⟨hvalue.append (Allowed.single h.1), by simp [levels, hlevels]⟩
  | uninit ty name => exact ⟨Allowed.single h, by simp [levels]⟩
  | branch cond yes no =>
    obtain ⟨hcond, hlevels⟩ := occurrences_of_isValue h.1
    obtain ⟨hyes, hyesLevels⟩ := occurrences_of_areStmts h.2.1
    obtain ⟨hno, hnoLevels⟩ := occurrences_of_areStmts h.2.2.1
    refine ⟨hcond, ?_⟩
    simp only [levels, hlevels, List.nil_append, List.forall_mem_append, List.forall_mem_cons]
    exact ⟨⟨hyes, hyesLevels⟩, hno, hnoLevels⟩
  | loop bound counter body =>
    obtain ⟨hbound, hlevels⟩ := occurrences_of_isValue h.1
    obtain ⟨hbody, hbodyLevels⟩ := occurrences_of_areStmts h.2.2
    refine ⟨hbound.append ?_, ?_⟩
    · simpa [Allowed] using h.2.1
    · simp only [levels, hlevels, List.nil_append, List.forall_mem_cons]
      exact ⟨hbody, hbodyLevels⟩
  | scope body =>
    have hstmts : AreStmts allowed body := h
    obtain ⟨hbody, hbodyLevels⟩ := occurrences_of_areStmts hstmts
    refine ⟨by simp [Allowed, occurrences], ?_⟩
    simp only [levels, List.forall_mem_cons]
    exact ⟨hbody, hbodyLevels⟩
  | lineComment | blockComment | done => simp [Allowed, occurrences, levels]
  | int | bool | float | double | vec2 | vec3 | vec4 | mat4 | ref | call | binary | field | index
  | array =>
    obtain ⟨hvalue, hlevels⟩ := occurrences_of_isValue h
    exact ⟨hvalue, by simp [hlevels]⟩

/-- The names that occur in well-placed statements are allowed, also in the blocks in them. -/
theorem occurrences_of_areStmts {es : List Expr} (h : AreStmts allowed es) :
    Allowed allowed.name (occurrencesEach es) ∧
      ∀ level ∈ levelsEach es, Allowed allowed.name level.occurrences := by
  cases es with
  | nil => simp [Allowed, occurrencesEach, levelsEach]
  | cons e es =>
    obtain ⟨hfirst, hlevels⟩ := occurrences_of_isStmt h.1
    obtain ⟨hrest, hmore⟩ := occurrences_of_areStmts h.2
    exact ⟨hfirst.append hrest, List.forall_mem_append.mpr ⟨hlevels, hmore⟩⟩

end

/-! ## Changes of statements -/

section Mapped

variable {f : Expr → Expr}

mutual

/-- A change of a statement keeps its occurrences and levels if the change of a single node does. -/
theorem levels_mapStmt (hf : ∀ e, (f e).occurrences = e.occurrences ∧ (f e).levels = e.levels)
    (e : Expr) :
    (Block.mapStmt f e).occurrences = e.occurrences ∧ (Block.mapStmt f e).levels = e.levels := by
  cases e with
  | branch cond yes no =>
    obtain ⟨hyes, hyesLevels⟩ := levelsEach_mapEach hf yes
    obtain ⟨hno, hnoLevels⟩ := levelsEach_mapEach hf no
    simp [Block.mapStmt, occurrences, levels, hyes, hyesLevels, hno, hnoLevels]
  | loop bound counter body | scope body =>
    obtain ⟨hbody, hbodyLevels⟩ := levelsEach_mapEach hf body
    simp [Block.mapStmt, occurrences, levels, hbody, hbodyLevels]
  | _ => exact hf _

/-- A change of each statement keeps the occurrences and levels. -/
theorem levelsEach_mapEach (hf : ∀ e, (f e).occurrences = e.occurrences ∧ (f e).levels = e.levels)
    (es : List Expr) :
    occurrencesEach (Block.mapEach f es) = occurrencesEach es ∧
      levelsEach (Block.mapEach f es) = levelsEach es := by
  cases es with
  | nil => exact ⟨rfl, rfl⟩
  | cons e es =>
    obtain ⟨hfirst, hlevels⟩ := levels_mapStmt hf e
    obtain ⟨hrest, hmore⟩ := levelsEach_mapEach hf es
    simp [Block.mapEach, occurrencesEach, levelsEach, hfirst, hlevels, hrest, hmore]

end

end Mapped

end Expr

/-! ## Hygiene -/

/-- A level is hygienic: a name that occurs there is not reserved, or else the level is the body of
a scope and the name is a link that occurs there twice, first bound as a variable, then read. -/
def Level.IsHygienic (level : Level) : Prop :=
  ∀ o ∈ level.occurrences, Unreserved o.name ∨
    (level.inScope = true ∧ ∃ i, o.name = link i ∧
      level.occurrences.filter (·.name == link i) = [⟨.bound, link i⟩, ⟨.read, link i⟩])

/-- A shader is hygienic: its inputs and outputs have names that may be used, and all levels of its
body are hygienic. -/
structure Shader.IsHygienic (shader : Shader) : Prop where
  inputs : ∀ x ∈ shader.inputNames, Unreserved x
  outputs : ∀ x ∈ shader.outputNames, Unreserved x
  levels : ∀ level ∈ shader.body.levels, level.IsHygienic

/-- A function is hygienic: no reserved word occurs among its parameters or at any level of its
body. -/
structure Func.IsHygienic (func : Func) : Prop where
  params : ∀ param ∈ func.params, Unreserved param.1
  levels : ∀ body ∈ func.body?, ∀ level ∈ body.levels, Allowed Unreserved level.occurrences

/-- A name that may be used is not the counter of a loop that names none. -/
theorem Word.Unreserved.ne_counter {name : String} (h : Unreserved name) : name ≠ counter := by
  rintro rfl
  have hreserved : isReserved counter = true := by decide
  rw [Unreserved, hreserved] at h
  cases h

/-- A name that may be used is no link. -/
theorem Word.Unreserved.ne_link {name : String} (h : Unreserved name) (i : Nat) :
    name ≠ link i := by
  rintro rfl
  rw [Unreserved, isReserved_link] at h
  cases h

namespace Level

/-- A level without reserved words is hygienic. -/
theorem isHygienic_of_allowed {level : Level} (h : Allowed Unreserved level.occurrences) :
    level.IsHygienic :=
  fun o ho => Or.inl (h o ho)

/-- A hygienic level that is no scope has no reserved words. -/
theorem IsHygienic.allowed {os : List Occurrence} (h : IsHygienic ⟨false, os⟩) :
    Allowed Unreserved os := by
  intro o ho
  rcases h o ho with hfree | ⟨hscope, -⟩
  · exact hfree
  · cases hscope

/-- A hygienic level stays hygienic with more names that are not reserved. -/
theorem IsHygienic.append {inScope : Bool} {os more : List Occurrence}
    (h : IsHygienic ⟨inScope, os⟩) (hmore : Allowed Unreserved more) :
    IsHygienic ⟨inScope, os ++ more⟩ := by
  have hnone : ∀ i, more.filter (·.name == link i) = [] := by
    intro i
    rw [List.filter_eq_nil_iff]
    intro o ho
    simpa using (hmore o ho).ne_link i
  intro o ho
  rcases List.mem_append.mp ho with ho | ho
  · refine (h o ho).imp_right ?_
    rintro ⟨hscope, i, hname, hfilter⟩
    refine ⟨hscope, i, hname, ?_⟩
    rw [List.filter_append, hnone, List.append_nil]
    exact hfilter
  · exact Or.inl (hmore o ho)

end Level

/-! ## Composites -/

namespace Shader

/-- If each of some numbered items mentions the link of its number once, and no other link, then
each of these links is mentioned once. -/
theorem filter_link_zipIdx {α : Type} (role : Role) (mention : α × Nat → List Occurrence)
    (items : List α) (hmention : ∀ a ∈ items, ∀ i k,
      (mention (a, i)).filter (·.name == link k) = if i = k then [⟨role, link k⟩] else [])
    (n k : Nat) :
    ((items.zipIdx n).flatMap mention).filter (·.name == link k) =
      if n ≤ k ∧ k < n + items.length then [⟨role, link k⟩] else [] := by
  induction items generalizing n with
  | nil => simp
  | cons a items ih =>
    have hrest := ih (fun b hb => hmention b (List.mem_cons_of_mem a hb)) (n + 1)
    rw [List.zipIdx_cons, List.flatMap_cons, List.filter_append, hmention a List.mem_cons_self,
      hrest, List.length_cons]
    by_cases hfirst : n = k
    · rw [if_pos hfirst, if_neg (by omega), if_pos (by omega), List.append_nil]
    · rw [if_neg hfirst, List.nil_append]
      congr 1
      exact propext (by omega)

/-- A rebinding reads one name and binds another. -/
theorem occurrencesEach_map_rebind {α : Type} (items : List α) (name source : α → String)
    (ty : α → Ty) :
    occurrencesEach (items.map fun a => rebind (name a) (ty a) (source a)) =
      items.flatMap fun a => [⟨.read, source a⟩, ⟨.bound, name a⟩] := by
  rw [occurrencesEach_eq_flatMap, List.flatMap_map]
  rfl

/-- There are no blocks in rebindings. -/
theorem levelsEach_rebindings (outputs : List Global) (pairs : List (Global × Global)) :
    levelsEach (rebindings outputs pairs) = [] := by
  rw [levelsEach_eq_flatMap, List.flatMap_eq_nil_iff]
  intro e he
  obtain ⟨-, -, rfl | ⟨-, rfl | rfl⟩⟩ := exists_eq_rebind he
  all_goals rfl

/-- Names that occur in rebindings may be used, or they are links that are bound once and read once
after that. -/
theorem isHygienic_rebindings {outputs : List Global} {pairs : List (Global × Global)}
    (hpairs : ∀ pair ∈ pairs, Unreserved pair.1.name ∧ Unreserved pair.2.name) :
    Level.IsHygienic ⟨true, occurrencesEach (rebindings outputs pairs)⟩ := by
  unfold rebindings
  split
  · simp only [occurrencesEach_append, occurrencesEach_map_rebind]
    have hbound := filter_link_zipIdx .bound
      (fun item => [⟨.read, item.1.1.name⟩, ⟨.bound, link item.2⟩]) pairs
      (fun pair hpair i k => by
        have hne := (hpairs pair hpair).1.ne_link k
        by_cases hi : i = k <;> simp [hne, hi]) 0
    have hread := filter_link_zipIdx .read
      (fun item => [⟨.read, link item.2⟩, ⟨.bound, item.1.2.name⟩]) pairs
      (fun pair hpair i k => by
        have hne := (hpairs pair hpair).2.ne_link k
        by_cases hi : i = k <;> simp [hne, hi]) 0
    have hindex : ∀ {item : (Global × Global) × Nat}, item ∈ pairs.zipIdx →
        item.2 < pairs.length :=
      fun hmem => by simpa using List.snd_lt_of_mem_zipIdx hmem
    intro o ho
    rcases List.mem_append.mp ho with ho | ho
    · obtain ⟨⟨pair, i⟩, hmem, ho⟩ := List.mem_flatMap.mp ho
      simp only [List.mem_cons, List.not_mem_nil, or_false] at ho
      rcases ho with rfl | rfl
      · exact Or.inl (hpairs pair (List.fst_mem_of_mem_zipIdx hmem)).1
      · refine Or.inr ⟨rfl, i, rfl, ?_⟩
        simp only [List.filter_append, hbound, hread]
        simp [hindex hmem]
    · obtain ⟨⟨pair, i⟩, hmem, ho⟩ := List.mem_flatMap.mp ho
      simp only [List.mem_cons, List.not_mem_nil, or_false] at ho
      rcases ho with rfl | rfl
      · refine Or.inr ⟨rfl, i, rfl, ?_⟩
        simp only [List.filter_append, hbound, hread]
        simp [hindex hmem]
      · exact Or.inl (hpairs pair (List.fst_mem_of_mem_zipIdx hmem)).2
  · rw [occurrencesEach_map_rebind]
    refine Level.isHygienic_of_allowed fun o ho => ?_
    obtain ⟨pair, hmem, ho⟩ := List.mem_flatMap.mp ho
    simp only [List.mem_cons, List.not_mem_nil, or_false] at ho
    rcases ho with rfl | rfl
    · exact (hpairs pair hmem).1
    · exact (hpairs pair hmem).2

/-- The levels of a composite: the variables for the outputs of the first shader, the levels of the
first shader, and those of the second one with the rebindings before its body. -/
theorem levels_composite (stage : Stage) (down up : Shader) :
    (composite stage down up).body.levels =
      ⟨false, up.outputs.map fun output => ⟨.bound, output.name⟩⟩ ::
        ⟨true, occurrencesEach up.body⟩ :: levelsEach up.body ++
        ⟨true, occurrencesEach (rebindings up.outputs (rebound down up)) ++
          occurrencesEach (Block.stmts down.body)⟩ :: levelsEach (Block.stmts down.body) := by
  have houtputs : ∀ outputs : List Global,
      occurrencesEach (outputs.map fun output => .uninit output.ty output.name) =
        outputs.map (fun output => ⟨.bound, output.name⟩) ∧
      levelsEach (outputs.map fun output => .uninit output.ty output.name) = [] := by
    intro outputs
    induction outputs with
    | nil => exact ⟨rfl, rfl⟩
    | cons output outputs ih =>
      simp [occurrencesEach, occurrences, levelsEach, Expr.levels, ih.1, ih.2]
  have hup := levelsEach_mapEach (f := outputToUpdate) (fun e => by cases e <;> exact ⟨rfl, rfl⟩)
    up.body
  simp [Block.levels, composite, compositeStmts, fedBody, Block.mapStmts, occurrencesEach,
    occurrences, levelsEach, Expr.levels, houtputs, hup.1, hup.2, levelsEach_rebindings]

/-- A composite of hygienic shaders is hygienic: its first block is a scope without links, and its
second one has the links of the rebindings beside the names of a body without links. -/
theorem IsHygienic.composite {down up : Shader} (hdown : down.IsHygienic) (hup : up.IsHygienic)
    (stage : Stage) : (composite stage down up).IsHygienic := by
  refine ⟨hup.inputs, hdown.outputs, ?_⟩
  obtain ⟨hupBody, hupLevels⟩ := List.forall_mem_cons.mp hup.levels
  obtain ⟨hdownBody, hdownLevels⟩ := List.forall_mem_cons.mp hdown.levels
  obtain ⟨last, hlast⟩ := List.dropLast_prefix down.body
  have hstmts : Allowed Unreserved (occurrencesEach (Block.stmts down.body)) := by
    intro o ho
    refine hdownBody.allowed o ?_
    rw [← hlast, occurrencesEach_append]
    exact List.mem_append_left _ ho
  have hpairs : ∀ pair ∈ rebound down up, Unreserved pair.1.name ∧ Unreserved pair.2.name := by
    intro pair hpair
    obtain ⟨houtput, hinput⟩ := List.of_mem_zip (List.mem_filter.mp hpair).1
    exact ⟨hup.outputs _ (List.mem_map_of_mem houtput),
      hdown.inputs _ (List.mem_map_of_mem hinput)⟩
  rw [levels_composite]
  simp only [List.cons_append, List.forall_mem_cons, List.forall_mem_append]
  refine ⟨?_, Level.isHygienic_of_allowed hupBody.allowed, hupLevels,
    (isHygienic_rebindings hpairs).append hstmts, ?_⟩
  · refine Level.isHygienic_of_allowed fun o ho => ?_
    obtain ⟨output, houtput, rfl⟩ := List.mem_map.mp ho
    exact hup.outputs _ (List.mem_map_of_mem houtput)
  · intro level hlevel
    refine hdownLevels level ?_
    rw [← hlast, levelsEach_append]
    exact List.mem_append_left _ hlevel

/-- Shaders that are made by compositions from hygienic ones are hygienic. -/
theorem Composed.isHygienic {base : Shader → Prop} (hbase : ∀ shader, base shader →
    shader.IsHygienic) {first last shader : Shader} (h : Composed base first last shader) :
    shader.IsHygienic := by
  induction h with
  | single hshader => exact hbase _ hshader
  | step hfirst hlast hcompose hup hdown =>
    obtain ⟨-, rfl⟩ := compose_eq_ok_iff.mp hcompose
    exact hdown.composite hup _

end Shader

/-! ## Sources -/

/-- A declaration is as readers give it, with any names that may be used. -/
abbrev Grammar.IsRead : Declaration → Prop :=
  IsReadIn (.ofNames Unreserved)

/-- The declarations of a source are as readers give them. -/
theorem isRead_of_mem_declarationsOf (source : List Char) :
    ∀ declaration ∈ declarationsOf source, Grammar.IsRead declaration :=
  isReadIn_of_mem_declarationsOf (Vocabulary.suitsSource_unreserved source)

/-- The levels of a body of statements without reserved words have none. -/
theorem allowed_levels {body : Block} (h : AreStmts (.ofNames Unreserved) body) :
    ∀ level ∈ body.levels, Allowed Unreserved level.occurrences :=
  List.forall_mem_cons.mpr (occurrences_of_areStmts h)

/-- A shader that is declared as readers give it is hygienic. -/
theorem Shader.isHygienic_of_spelledOut {declarations : List Declaration}
    (hread : ∀ declaration ∈ declarations, Grammar.IsRead declaration) {shader : Shader}
    (h : Progress.SpelledOut declarations shader) : shader.IsHygienic := by
  obtain ⟨name, hmem⟩ := h
  have hdeclared := hread _ hmem
  have hplaced := Shader.isPlaced_of_isReadIn hdeclared
  exact ⟨hplaced.inputs, hplaced.outputs,
    fun level hlevel => Level.isHygienic_of_allowed (allowed_levels hdeclared.2.1 level hlevel)⟩

/-- A function that is declared as readers give it is hygienic. -/
theorem Func.isHygienic_of_function? {declaration : Declaration}
    (hread : Grammar.IsRead declaration) {func : Func} (hfunc : declaration.function? = some func) :
    func.IsHygienic := by
  cases declaration with
  | function name params result block =>
    cases hfunc
    refine ⟨?_, ?_⟩
    · intro param hparam
      obtain ⟨declared, hdeclared, rfl⟩ := List.mem_map.mp hparam
      exact hread.1 declared hdeclared
    · intro body hbody
      cases hbody
      exact allowed_levels hread.2.1.1
  | _ => cases hfunc

/-- All shaders that are found after some declarations as readers give them are hygienic. -/
theorem Progress.isHygienic_of_shader_eq_ok {diagnostics : List Diagnostic}
    {declarations : List Declaration}
    (hread : ∀ declaration ∈ declarations, Grammar.IsRead declaration) {p : Progress}
    (h : (start diagnostics).declareAll declarations = (p, none)) {name : Ident} {shader : Shader}
    (hshader : p.shader name = .ok shader) : shader.IsHygienic := by
  obtain ⟨entry, hentry, rfl⟩ := mem_shaders_of_shader_eq_ok hshader
  have hcomposed := composed_of_mem_shaders diagnostics declarations
  rw [h] at hcomposed
  obtain ⟨first, last, hentry⟩ := hcomposed entry hentry
  exact hentry.isHygienic fun _ => Shader.isHygienic_of_spelledOut hread

/-- A source with a composite of composites, all of which cross their signals. -/
def crossing : List Char :=
  "vert a:()->(Int x,Int y)=\x7b\x7d vert b:(Int y,Int x)->(Int u,Int v)=\x7bout u=y\x7d".toList ++
  "vert c:()->()=b.a vert d:(Int v,Int u)->()=\x7bv\x7d vert e:()->()=d.c p:Prog=mkProg e e".toList

/-- What a source amounts to is hygienic: no reserved word occurs in a function, and in the shaders
of a program only links do, each in a block of a composition that binds it once and reads it once
after that.  A name that is not reserved is neither a link nor the counter of a loop that names
none. -/
theorem hygienic_of_load {diagnostics : List Diagnostic} {source : List Char} {m : Module}
    (h : (load diagnostics source).module = some m) :
    (∀ func ∈ m.functions, func.IsHygienic) ∧
      (∀ entry ∈ m.programs, entry.2.vertex.IsHygienic ∧ entry.2.fragment.IsHygienic) ∧
      ∀ name, Unreserved name → name ≠ counter ∧ ∀ i, name ≠ link i := by
  obtain ⟨p, hall, rfl, -⟩ := declareAll_of_load h
  have hread := isRead_of_mem_declarationsOf source
  refine ⟨?_, ?_, fun name hname => ⟨hname.ne_counter, hname.ne_link⟩⟩
  · intro func hfunc
    replace hfunc : func ∈ p.registry.functions := hfunc
    rw [(Progress.registry_declareAll hall).2] at hfunc
    obtain ⟨declaration, hmem, hdeclared⟩ := List.mem_filterMap.mp hfunc
    exact Func.isHygienic_of_function? (hread declaration hmem) hdeclared
  · intro entry hentry
    obtain hnone | ⟨before, ident, vertexName, fragmentName, after, q, vertex, fragment, hsource,
      hbefore, hvertex, hfragment, rfl⟩ := Progress.mem_programs_declareAll hall hentry
    · cases hnone
    have hearlier : ∀ declaration ∈ before, Grammar.IsRead declaration := by
      intro declaration hmem
      refine hread declaration ?_
      rw [hsource]
      exact List.mem_append_left _ hmem
    exact ⟨Progress.isHygienic_of_shader_eq_ok hearlier hbefore hvertex,
      Progress.isHygienic_of_shader_eq_ok hearlier hbefore hfragment⟩

/-- The program of `crossing` is hygienic, and two blocks of its vertex shader have links. -/
theorem hygienic_crossing :
    ∃ m, (load [] crossing).module = some m ∧ ∃ entry ∈ m.programs,
      entry.2.vertex.IsHygienic ∧ entry.2.fragment.IsHygienic ∧
      (entry.2.vertex.body.levels.filter
        (·.occurrences.contains ⟨.bound, link 1⟩)).length = 2 := by
  have hevaluated : ((load [] crossing).module.any fun m => m.programs.any fun entry =>
      (entry.2.vertex.body.levels.filter
        (·.occurrences.contains ⟨.bound, link 1⟩)).length == 2) = true := by
    decide +kernel
  obtain ⟨m, hm, hprograms⟩ := (Option.any_eq_true _ _).mp hevaluated
  obtain ⟨entry, hentry, hlinks⟩ := List.any_eq_true.mp hprograms
  obtain ⟨-, hhygienic, -⟩ := hygienic_of_load hm
  exact ⟨m, hm, entry, hentry, (hhygienic entry hentry).1, (hhygienic entry hentry).2,
    beq_iff_eq.mp hlinks⟩

end ShaderLang
