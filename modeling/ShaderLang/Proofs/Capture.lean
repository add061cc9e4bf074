import ShaderLang.Proofs.ClosedText
import ShaderLang.Proofs.Hygiene
import ShaderLang.Proofs.Layout

/-!
# Capture by loops

The lint reads the bound of a loop in the environment around the loop.  A page tests the bound at
the end of the loop, where the counter and what the body binds are in scope too, so either of them
can capture a name of the bound.

Main results:

- Theorem `isLowered_of_mem_sitesInBlock`: what holds of each loop of a body, at every depth.
- Theorem `isLowered_of_load`: the names of a bound are resolved around the loop, and a name denotes
  the same where the bound is tested exactly if the loop does not bind it.
-/

namespace ShaderLang

/-! ## Loops in a body -/

namespace Env

/-- The environment after a statement. -/
def past (env : Env) (e : Expr) : Env :=
  e.binds?.elim env env.bind

/-- The environment in the body of a loop. -/
def inLoop (env : Env) (counter : Option String) : Env :=
  counter.elim env.child env.child.bind

theorem resolves_past {env : Env} {e : Expr} {x : String} :
    (env.past e).resolves x = true ↔ e.binds? = some x ∨ env.resolves x = true := by
  rw [past]
  cases e.binds? with
  | none => simp
  | some name => simp [resolves_bind, eq_comm (a := x)]

theorem resolves_inLoop {env : Env} {counter : Option String} {x : String} :
    (env.inLoop counter).resolves x = true ↔ counter = some x ∨ env.resolves x = true := by
  rw [inLoop]
  cases counter with
  | none => simp
  | some name => simp [resolves_bind, eq_comm (a := x)]

end Env

namespace Target

/-- A loop in a body, with the environment in which the lint reads it and the items that a page has
before it. -/
structure LoopSite where
  env : Env
  before : List Item
  bound : Expr
  counter : Option String
  body : List Expr

mutual

/-- The loops in a statement. -/
def sitesInStmt (env : Env) (before : List Item) : Expr → List LoopSite
  | .branch cond yes no =>
    sitesInBlock env.child (before ++ [.branch cond]) yes ++
      sitesInBlock env.child (before ++ (.branch cond :: Item.ofBlock yes ++ [.otherwise])) no
  | .loop bound counter body =>
    ⟨env, before, bound, counter, body⟩ ::
      sitesInBlock (env.inLoop counter) (before ++ [.loop (counter.getD Word.counter)]) body
  | .scope body => sitesInBlock env.child (before ++ [.scope]) body
  | _ => []

/-- The loops in the statements of a block. -/
def sitesInBlock (env : Env) (before : List Item) : List Expr → List LoopSite
  | [] => []
  | e :: es => sitesInStmt env before e ++ sitesInBlock (env.past e) (before ++ Item.ofStmt e) es

end

/-- The loops in a body that sees some names. -/
def loopSites (visible : List String) (body : Block) : List LoopSite :=
  sitesInBlock (Env.global visible).child [] body

namespace LoopSite

/-- The name of the counter. -/
def counterName (site : LoopSite) : String :=
  site.counter.getD Word.counter

/-- The items up to the test of the bound. -/
def upToTest (site : LoopSite) : List Item :=
  site.before ++ .loop site.counterName :: Item.ofBlock site.body

/-- A name denotes where the bound is tested what it denotes around the loop. -/
def Keeps (site : LoopSite) (x : String) : Prop :=
  (Scopes.after site.upToTest).declaration? x = (Scopes.after site.before).declaration? x

instance (site : LoopSite) (x : String) : Decidable (site.Keeps x) :=
  inferInstanceAs (Decidable (_ = _))

/-- How a loop of a body stands on a page. -/
structure IsLowered (visible : List String) (whole : Block) (site : LoopSite) : Prop where
  /-- The loop stands after the items before it, and its bound is tested after its body. -/
  written : ∃ after, Item.ofBlock whole =
    site.upToTest ++ .test site.counterName site.bound :: .close :: after
  /-- The lint resolves the names of the bound around the loop. -/
  resolved : ∀ x ∈ Scope.freeInExpr site.bound, site.env.resolves x = true
  /-- What the lint resolves around the loop is declared there, or visible in the whole body. -/
  declared : ∀ x ∈ Scope.freeInExpr site.bound,
    ((Scopes.after site.before).declaration? x).isSome = true ∨
      (Env.global visible).resolves x = true
  /-- A name of the bound denotes the same at the test exactly if the loop does not bind it. -/
  keeps_iff : ∀ x ∈ Scope.freeInExpr site.bound,
    (site.Keeps x ↔ site.counter ≠ some x ∧ x ∉ Block.ownNames site.body)

end LoopSite

/-! ## Traversal -/

namespace Scopes

variable {s s' : Scopes} {visible : List String} {env : Env}

/-- The lint resolves what is in scope and what is visible in the whole body.  The counter of a loop
that names none is in scope and not resolved. -/
def Sees (s : Scopes) (visible : List String) (env : Env) : Prop :=
  ∀ x, x ≠ Word.counter →
    (env.resolves x = true ↔ x ∈ s.names ∨ (Env.global visible).resolves x = true)

theorem sees_start (visible : List String) : start.Sees visible (Env.global visible).child := by
  intro x _
  simp [Scopes.names, declarations, start]

theorem Sees.past (h : s.Sees visible env) (e : Expr) :
    ((Item.ofStmt e).foldl pass s).Sees visible (env.past e) := by
  intro x hx
  rw [Env.resolves_past, h x hx, (adds_ofStmt s e).mem_names_iff, or_assoc, Option.mem_toList]

theorem Sees.adds (h : s.Sees visible env) (hadds : s.Adds s' []) : s'.Sees visible env := by
  intro x hx
  rw [h x hx, hadds.mem_names_iff]
  simp

theorem Sees.enter (h : s.Sees visible env) : (s.enter []).Sees visible env.child := by
  intro x hx
  rw [Env.resolves_child, h x hx, mem_names_enter]
  simp

theorem Sees.inLoop (h : s.Sees visible env) (counter : Option String) :
    (s.pass (.loop (counter.getD Word.counter))).Sees visible (env.inLoop counter) := by
  intro x hx
  rw [Env.resolves_inLoop, h x hx, pass, mem_names_enter, or_assoc]
  cases counter with
  | none => simp [hx]
  | some name => simp [eq_comm (a := x)]

end Scopes

open ShaderLang.Expr

mutual

/-- The names that a value uses are allowed. -/
theorem name_of_mem_freeInExpr {allowed : Vocabulary} {x : String} {e : Expr}
    (h : e.IsValue allowed) (hx : x ∈ Scope.freeInExpr e) : allowed.name x := by
  cases e with
  | int | bool | float | double => simp [Scope.freeInExpr] at hx
  | ref name =>
    obtain rfl := List.mem_singleton.mp hx
    exact h
  | call name args =>
    rcases List.mem_cons.mp hx with rfl | hx
    · exact h.1
    · exact name_of_mem_freeInEach h.2 hx
  | field base name => exact name_of_mem_freeInExpr h.1 hx
  | binary op lhs rhs | index lhs rhs | vec2 lhs rhs =>
    rcases List.mem_append.mp hx with hx | hx
    · exact name_of_mem_freeInExpr h.1 hx
    · exact name_of_mem_freeInExpr h.2 hx
  | vec3 a b c =>
    rw [Scope.freeInExpr, List.mem_append, List.mem_append] at hx
    rcases hx with (hx | hx) | hx
    · exact name_of_mem_freeInExpr h.1 hx
    · exact name_of_mem_freeInExpr h.2.1 hx
    · exact name_of_mem_freeInExpr h.2.2 hx
  | vec4 a b c d =>
    rw [Scope.freeInExpr, List.mem_append, List.mem_append, List.mem_append] at hx
    rcases hx with ((hx | hx) | hx) | hx
    · exact name_of_mem_freeInExpr h.1 hx
    · exact name_of_mem_freeInExpr h.2.1 hx
    · exact name_of_mem_freeInExpr h.2.2.1 hx
    · exact name_of_mem_freeInExpr h.2.2.2 hx
  | mat4 items | array items =>
    have hitems : AreValues allowed items := h
    exact name_of_mem_freeInEach hitems hx
  | _ => exact h.elim

/-- The names that values use are allowed. -/
theorem name_of_mem_freeInEach {allowed : Vocabulary} {x : String} {es : List Expr}
    (h : AreValues allowed es) (hx : x ∈ Scope.freeInEach es) : allowed.name x := by
  cases es with
  | nil => simp [Scope.freeInEach] at hx
  | cons e es =>
    rcases List.mem_append.mp hx with hx | hx
    · exact name_of_mem_freeInExpr h.1 hx
    · exact name_of_mem_freeInEach h.2 hx

end

/-- What holds where the statements `es` of a body are read and written. -/
structure Traversed (allowed : Vocabulary) (visible : List String) (whole : Block) (env : Env)
    (before : List Item) (es : List Expr) : Prop where
  stmts : AreStmts allowed es
  resolved : ∀ x ∈ Scope.freeInBlock es, env.resolves x = true
  written : ∃ after, Item.ofBlock whole = before ++ Item.ofBlock es ++ after
  sees : (Scopes.after before).Sees visible env

namespace Traversed

variable {allowed : Vocabulary} {visible : List String} {whole : Block} {env env' : Env}
  {before first last : List Item} {e : Expr} {es inner : List Expr}

/-- After a statement, what it binds is resolved and in scope. -/
theorem rest (h : Traversed allowed visible whole env before (e :: es)) :
    Traversed allowed visible whole (env.past e) (before ++ Item.ofStmt e) es where
  stmts := h.stmts.2
  resolved := by
    intro x hx
    rw [Env.resolves_past]
    by_cases hbinds : e.binds? = some x
    · exact Or.inl hbinds
    · exact Or.inr (h.resolved x (Scope.mem_freeInBlock_cons.mpr (Or.inr ⟨hx, hbinds⟩)))
  written := by
    obtain ⟨after, hwhole⟩ := h.written
    exact ⟨after, by simpa [Item.ofBlock] using hwhole⟩
  sees := by
    rw [Scopes.after, List.foldl_append]
    exact h.sees.past e

/-- A block in a statement is traversed after the items before it. -/
theorem inside (h : Traversed allowed visible whole env before (e :: es))
    (hitems : Item.ofStmt e = first ++ Item.ofBlock inner ++ last)
    (hstmts : AreStmts allowed inner)
    (hresolved : ∀ x ∈ Scope.freeInBlock inner, env'.resolves x = true)
    (hsees : (first.foldl Scopes.pass (Scopes.after before)).Sees visible env') :
    Traversed allowed visible whole env' (before ++ first) inner where
  stmts := hstmts
  resolved := hresolved
  written := by
    obtain ⟨after, hwhole⟩ := h.written
    exact ⟨last ++ (Item.ofBlock es ++ after), by simp [hwhole, Item.ofBlock, hitems]⟩
  sees := by
    rw [Scopes.after, List.foldl_append]
    exact hsees

/-- What a statement uses is resolved before it. -/
theorem resolves (h : Traversed allowed visible whole env before (e :: es)) {x : String}
    (hx : x ∈ Scope.freeInStmt e) : env.resolves x = true :=
  h.resolved x (Scope.mem_freeInBlock_cons.mpr (Or.inl hx))

section Blocks

/-! The blocks in a statement: each opens a block on the page and in the environment. -/

variable {cond bound : Expr} {yes no body : List Expr} {counter : Option String}

theorem firstBlock (h : Traversed allowed visible whole env before (.branch cond yes no :: es)) :
    Traversed allowed visible whole env.child (before ++ [.branch cond]) yes := by
  have hitems : Item.ofStmt (.branch cond yes no) = [.branch cond] ++ Item.ofBlock yes ++
      ((if Block.hasNone no then [] else .otherwise :: Item.ofBlock no) ++ [.close]) := by
    simp [Item.ofStmt]
  refine h.inside hitems h.stmts.1.2.1 ?_ h.sees.enter
  intro x hx
  rw [Env.resolves_child]
  exact h.resolves (by simp [Scope.freeInStmt, Scope.freeInExpr, hx])

theorem secondBlock (h : Traversed allowed visible whole env before (.branch cond yes no :: es))
    (hsome : Block.hasNone no = false) :
    Traversed allowed visible whole env.child
      (before ++ (.branch cond :: Item.ofBlock yes ++ [.otherwise])) no := by
  have hitems : Item.ofStmt (.branch cond yes no) =
      (.branch cond :: Item.ofBlock yes ++ [.otherwise]) ++ Item.ofBlock no ++ [.close] := by
    simp [Item.ofStmt, hsome]
  refine h.inside hitems h.stmts.1.2.2.1 ?_ ?_
  · intro x hx
    rw [Env.resolves_child]
    exact h.resolves (by simp [Scope.freeInStmt, Scope.freeInExpr, hx])
  · rw [List.cons_append, List.foldl_cons, List.foldl_append]
    exact (h.sees.adds (Scopes.adds_ofBlock _ yes).leave).enter

theorem loopBody (h : Traversed allowed visible whole env before (.loop bound counter body :: es)) :
    Traversed allowed visible whole (env.inLoop counter)
      (before ++ [.loop (counter.getD Word.counter)]) body := by
  refine h.inside rfl h.stmts.1.2.2 ?_ (h.sees.inLoop counter)
  intro x hx
  rw [Env.resolves_inLoop]
  by_cases hcounter : counter = some x
  · exact Or.inl hcounter
  · exact Or.inr (h.resolves (by simp [Scope.freeInStmt, Scope.freeInExpr, hx, hcounter]))

theorem scopeBody (h : Traversed allowed visible whole env before (.scope body :: es)) :
    Traversed allowed visible whole env.child (before ++ [.scope]) body := by
  refine h.inside rfl h.stmts.1 ?_ h.sees.enter
  intro x hx
  rw [Env.resolves_child]
  exact h.resolves hx

/-- What holds where a loop is read and written. -/
theorem isLowered (hfresh : ¬ allowed.name Word.counter)
    (h : Traversed allowed visible whole env before (.loop bound counter body :: es)) :
    LoopSite.IsLowered visible whole ⟨env, before, bound, counter, body⟩ := by
  have hresolved : ∀ x ∈ Scope.freeInExpr bound, env.resolves x = true :=
    fun x hx => h.resolves (List.mem_append_left _ hx)
  have hne : ∀ x ∈ Scope.freeInExpr bound, x ≠ Word.counter := by
    rintro x hx rfl
    exact hfresh (name_of_mem_freeInExpr h.stmts.1.1 hx)
  refine ⟨?_, hresolved, ?_, ?_⟩
  · obtain ⟨after, hwhole⟩ := h.written
    exact ⟨Item.ofBlock es ++ after, by
      simp [hwhole, Item.ofBlock, Item.ofStmt, LoopSite.upToTest, LoopSite.counterName]⟩
  · intro x hx
    rw [Scopes.isSome_declaration?_iff]
    exact (h.sees x (hne x hx)).mp (hresolved x hx)
  · intro x hx
    have hiff := Scopes.declaration?_loop_iff (Scopes.isEarlier_after before)
      (counter.getD Word.counter) body x
    rw [LoopSite.Keeps, LoopSite.upToTest, Scopes.after, List.foldl_append]
    refine hiff.trans (and_congr_left fun _ => not_congr ?_)
    cases counter with
    | none => simpa using hne x hx
    | some name => simp [eq_comm (a := x)]

end Blocks

end Traversed

mutual

/-- All loops in a statement are lowered. -/
theorem isLowered_of_mem_sitesInStmt {allowed : Vocabulary} (hfresh : ¬ allowed.name Word.counter)
    {visible : List String} {whole : Block} {env : Env} {before : List Item} {es : List Expr}
    (e : Expr) (h : Traversed allowed visible whole env before (e :: es)) :
    ∀ site ∈ sitesInStmt env before e, site.IsLowered visible whole := by
  cases e with
  | branch cond yes no =>
    rw [sitesInStmt, List.forall_mem_append]
    refine ⟨isLowered_of_mem_sitesInBlock hfresh yes h.firstBlock, ?_⟩
    cases hnone : Block.hasNone no with
    | true =>
      -- an alternative that is left out is an end marker
      rw [h.stmts.1.2.2.2.eq_done hnone]
      simp [sitesInBlock, sitesInStmt]
    | false => exact isLowered_of_mem_sitesInBlock hfresh no (h.secondBlock hnone)
  | loop bound counter body =>
    rw [sitesInStmt, List.forall_mem_cons]
    exact ⟨h.isLowered hfresh, isLowered_of_mem_sitesInBlock hfresh body h.loopBody⟩
  | scope body => exact isLowered_of_mem_sitesInBlock hfresh body h.scopeBody
  | _ => simp [sitesInStmt]

/-- All loops in a block are lowered. -/
theorem isLowered_of_mem_sitesInBlock {allowed : Vocabulary} (hfresh : ¬ allowed.name Word.counter)
    {visible : List String} {whole : Block} {env : Env} {before : List Item} (es : List Expr)
    (h : Traversed allowed visible whole env before es) :
    ∀ site ∈ sitesInBlock env before es, site.IsLowered visible whole := by
  cases es with
  | nil => simp [sitesInBlock]
  | cons e es =>
    rw [sitesInBlock, List.forall_mem_append]
    exact ⟨isLowered_of_mem_sitesInStmt hfresh e h, isLowered_of_mem_sitesInBlock hfresh es h.rest⟩

end

/-! ## Sources -/

/-- How a body that sees some names stands on a page. -/
structure IsLowered (visible : List String) (body : Block) : Prop where
  /-- A page gets the items of the body, one after the other. -/
  written : ∀ page : Page, page.block body = (Item.ofBlock body).foldlM Page.item page
  /-- All loops are lowered. -/
  loops : ∀ site ∈ loopSites visible body, site.IsLowered visible body

open Word in
/-- The counter of a loop that names none is no name of a source, and no link either. -/
theorem not_name_counter : ¬ (Vocabulary.ofNames Unreserved).linked.name counter := by
  rintro (hname | ⟨i, hlink⟩)
  · exact hname.ne_counter rfl
  · have hform : isLink counter = false := by decide
    rw [hlink, isLink_link] at hform
    cases hform

/-- A closed body of statements is lowered. -/
theorem isLowered_of_closed {visible : List String} {body : Block}
    (hstmts : AreStmts (Vocabulary.ofNames Word.Unreserved).linked body)
    (hclosed : body.Closed visible) : IsLowered visible body := by
  refine ⟨fun page => page.block_eq_foldlM body, ?_⟩
  refine isLowered_of_mem_sitesInBlock not_name_counter body ⟨hstmts, ?_, ⟨[], by simp⟩, ?_⟩
  · intro x hx
    rw [Env.resolves_child]
    exact unresolved_eq_nil_iff.mp (Block.closed_iff_unresolved_eq_nil.mp hclosed) x hx
  · exact Scopes.sees_start visible

/-- The names that a stage declares before its body. -/
def stageNames (m : Module) (globals : List Global) : List String :=
  globals.map (·.name) ++ m.functions.map Func.name

/-- The stages of a program of a clean source use only names that they declare. -/
theorem closed_stages_of_load {diagnostics : List Diagnostic} {source : List Char} {m : Module}
    (h : (load diagnostics source).module = some m)
    (hclean : (load diagnostics source).diagnostics = []) {entry : String × Program}
    (hentry : entry ∈ m.programs) :
    entry.2.vertex.body.Closed (stageNames m (vertexGlobals entry.2)) ∧
      entry.2.fragment.body.Closed (stageNames m (fragmentGlobals entry.2)) := by
  obtain ⟨p, hall, rfl, hdiagnostics⟩ := declareAll_of_load h
  rw [hdiagnostics] at hclean
  obtain hnone | ⟨before, ident, vertexName, fragmentName, after, q, vertex, fragment, hsource,
    hbefore, hvertex, hfragment, rfl⟩ := Progress.mem_programs_declareAll hall hentry
  · cases hnone
  obtain ⟨-, hfunctions⟩ := Progress.registry_declareAll hall
  replace hfunctions : p.registry.functions = functionsIn (declarationsOf source) := hfunctions
  rw [hsource] at hall hfunctions
  have hprefix := Progress.prefix_declareAll
    ((Progress.declareAll_append hbefore _).symm.trans hall)
  have hclosed := Progress.closed_stages_programOf hbefore
    (List.prefix_nil.mp (hclean ▸ hprefix)) hvertex hfragment
  -- the stages declare all functions, also those after the program
  have hmore (names : List String) : names ++ (functionsIn before).map Func.name ⊆
      names ++ p.registry.functions.map Func.name := by
    rw [hfunctions, functionsIn_append, List.map_append, ← List.append_assoc]
    exact List.subset_append_left _ _
  exact ⟨hclosed.1.mono (hmore _), hclosed.2.mono (hmore _)⟩

/-- A source with a loop that binds a name of its bound in its body, and one that has it as its
counter. -/
def capturing : List Char :=
  "uniform Int n vert v:()->()=\x7bmut Int k=n for i in k+n do \x7blet Int n=i\x7d".toList ++
  "for n in n do \x7b\x7d\x7d frag e:()->()=\x7b\x7d p:Prog=mkProg v e".toList

/-- What loading `capturing` gives: no diagnostic, and a program with two loops. -/
theorem load_capturing : ((load [] capturing).module.any fun m =>
    (load [] capturing).diagnostics.isEmpty && m.programs.any fun entry =>
      let sites := loopSites (stageNames m (vertexGlobals entry.2)) entry.2.vertex.body
      (sites.any fun site => Scope.freeInExpr site.bound == ["k", "n"] &&
        site.counter == some "i" && Block.ownNames site.body == ["n"] &&
        site.env.resolves "n" && !decide (site.Keeps "n")) &&
      sites.any fun site => Scope.freeInExpr site.bound == ["n"] && site.counter == some "n" &&
        site.env.resolves "n" && !decide (site.Keeps "n")) = true := by
  decide +kernel

/-- The loops of a source that loads without a diagnostic, in its functions and in the stages of its
programs.  The bound of each is tested after the body of the loop, and each name of the bound is
resolved around the loop.  It denotes at the test what it denotes around the loop exactly if it is
not the counter and the body of the loop does not bind it itself. -/
theorem isLowered_of_load {diagnostics : List Diagnostic} {source : List Char} {m : Module}
    (h : (load diagnostics source).module = some m)
    (hclean : (load diagnostics source).diagnostics = []) :
    (∀ func ∈ m.functions, ∀ body ∈ func.body?, ∃ before declaration after,
      declarationsOf source = before ++ declaration :: after ∧
      declaration.function? = some func ∧
      IsLowered (func.params.map Prod.fst ++ (functionsIn before ++ [func]).map Func.name ++
        (uniformsIn before).map Func.name) body) ∧
    ∀ entry ∈ m.programs,
      IsLowered (stageNames m (vertexGlobals entry.2)) entry.2.vertex.body ∧
      IsLowered (stageNames m (fragmentGlobals entry.2)) entry.2.fragment.body := by
  obtain ⟨hfunctions, hprograms⟩ := isPlaced_of_load h (Vocabulary.suitsSource_unreserved source)
  constructor
  · intro func hfunc body hbody
    obtain ⟨p, hall, rfl, hdiagnostics⟩ := declareAll_of_load h
    rw [hdiagnostics] at hclean
    obtain ⟨earlier, later, hsplit⟩ := List.append_of_mem hfunc
    obtain ⟨before, declaration, after, hsource, hdeclared, -⟩ := exists_of_functionsIn_eq
      ((Progress.registry_declareAll hall).2.symm.trans hsplit)
    rw [hsource] at hall
    exact ⟨before, declaration, after, hsource, hdeclared, isLowered_of_closed
      ((hfunctions func hfunc).body body hbody)
      (Progress.closed_of_function? hall hclean hdeclared hbody)⟩
  · intro entry hentry
    obtain ⟨hvertex, hfragment⟩ := closed_stages_of_load h hclean hentry
    have hplaced := (hprograms entry hentry).2
    exact ⟨isLowered_of_closed hplaced.vertex.body hvertex,
      isLowered_of_closed hplaced.fragment.body hfragment⟩

/-- The first loop of `capturing` keeps one name of its bound and captures the other. -/
theorem keeps_capturing :
    ∃ m entry site, (load [] capturing).module = some m ∧ (load [] capturing).diagnostics = [] ∧
      entry ∈ m.programs ∧
      site ∈ loopSites (stageNames m (vertexGlobals entry.2)) entry.2.vertex.body ∧
      Scope.freeInExpr site.bound = ["k", "n"] ∧ site.Keeps "k" ∧ ¬ site.Keeps "n" := by
  obtain ⟨m, hm, hloaded⟩ := (Option.any_eq_true _ _).mp load_capturing
  simp only [Bool.and_eq_true, List.isEmpty_iff, List.any_eq_true, beq_iff_eq] at hloaded
  obtain ⟨hclean, entry, hentry, ⟨site, hsite, ⟨⟨⟨hbound, hcounter⟩, hown⟩, -⟩, -⟩, -⟩ :=
    hloaded
  have hlowered := ((isLowered_of_load hm hclean).2 entry hentry).1.loops site hsite
  have hkeeps := hlowered.keeps_iff
  rw [hbound, hcounter, hown] at hkeeps
  refine ⟨m, entry, site, hm, hclean, hentry, hsite, hbound, ?_, ?_⟩
  · exact (hkeeps "k" (by decide)).mpr (by decide)
  · exact mt (hkeeps "n" (by decide)).mp (by decide)

/-- Both loops of `capturing` capture a name of their bounds that the lint resolves around them: one
by a binding of its body, the other by its counter. -/
theorem not_keeps_capturing :
    ∃ m entry, (load [] capturing).module = some m ∧ (load [] capturing).diagnostics = [] ∧
      entry ∈ m.programs ∧
      (∃ site ∈ loopSites (stageNames m (vertexGlobals entry.2)) entry.2.vertex.body,
        "n" ∈ Scope.freeInExpr site.bound ∧ site.env.resolves "n" = true ∧
          site.counter = some "i" ∧ ¬ site.Keeps "n") ∧
      ∃ site ∈ loopSites (stageNames m (vertexGlobals entry.2)) entry.2.vertex.body,
        "n" ∈ Scope.freeInExpr site.bound ∧ site.env.resolves "n" = true ∧
          site.counter = some "n" ∧ ¬ site.Keeps "n" := by
  obtain ⟨m, hm, hloaded⟩ := (Option.any_eq_true _ _).mp load_capturing
  simp only [Bool.and_eq_true, List.isEmpty_iff, List.any_eq_true, beq_iff_eq, Bool.not_eq_true',
    decide_eq_false_iff_not] at hloaded
  obtain ⟨hclean, entry, hentry,
    ⟨first, hfirst, ⟨⟨⟨hbound, hcounter⟩, -⟩, hresolved⟩, hcaptured⟩,
    ⟨second, hsecond, ⟨⟨hbound', hcounter'⟩, hresolved'⟩, hcaptured'⟩⟩ := hloaded
  refine ⟨m, entry, hm, hclean, hentry, ⟨first, hfirst, ?_, hresolved, hcounter, hcaptured⟩,
    second, hsecond, ?_, hresolved', hcounter', hcaptured'⟩
  · simp [hbound]
  · simp [hbound']

end Target

end ShaderLang
