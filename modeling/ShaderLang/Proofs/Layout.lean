import ShaderLang.Proofs.FreeNames
import ShaderLang.Target.Page

/-!
# Layout of pages

A page is written item by item: headers that open blocks, ends of blocks, and statements without
blocks.  The items tell which variables are in scope at each place of a page, and which of them a
name denotes there.

Main results:

- Theorem `Page.block_eq_foldlM`: a page gets the items of a block, one after the other.
- Theorem `Scopes.adds_ofBlock`: the items of a block declare what its own statements bind, and
  leave the blocks around it as they are.
- Theorem `Scopes.declaration?_loop_iff`: at the end of a loop a name denotes what it denotes before
  the loop exactly if the loop does not bind it.
-/

namespace ShaderLang

namespace Target

/-! ## Pages item by item -/

/-- One of the steps in which statements are written, with what it does to the blocks of the target
language. -/
inductive Item where
  /-- The header of a branch, which opens a block. -/
  | branch (cond : Expr)
  /-- The end of the first block of a branch, which opens the second one. -/
  | otherwise
  /-- The header of a loop, which opens a block and declares the counter in it. -/
  | loop (counter : String)
  /-- The start of a scope, which opens a block. -/
  | scope
  /-- The end of a block. -/
  | close
  /-- The test of the bound of a loop. -/
  | test (counter : String) (bound : Expr)
  /-- A statement without blocks, which may declare a variable. -/
  | stmt (e : Expr)

namespace Item

mutual

/-- The items of a statement. -/
def ofStmt : Expr → List Item
  | .branch cond yes no =>
    branch cond :: ofBlock yes ++ (if Block.hasNone no then [] else otherwise :: ofBlock no) ++
      [close]
  | .loop bound counter body =>
    loop (counter.getD Word.counter) :: ofBlock body ++
      [test (counter.getD Word.counter) bound, close]
  | .scope body => scope :: ofBlock body ++ [close]
  | .done => []
  | e => [stmt e]

/-- The items of the statements of a block. -/
def ofBlock : List Expr → List Item
  | [] => []
  | e :: es => ofStmt e ++ ofBlock es

end

end Item

namespace Page

/-- Write an item. -/
def item (page : Page) : Item → Except Refusal Page
  | .branch cond => do return page.openBlock ("if (" ++ (← value cond) ++ ")")
  | .otherwise => pure (page.outdent.line "\x7d else \x7b").indent
  | .loop counter => pure (page.openBlock (loopHeader counter))
  | .scope => pure (page.line "\x7b").indent
  | .close => pure page.closeBlock
  | .test counter bound => do
    return page.line ("if (" ++ counter ++ " >= " ++ (← value bound) ++ ") break;")
  | .stmt e => page.stmt e

mutual

/-- A statement is written item by item. -/
theorem stmt_eq_foldlM (page : Page) (e : Expr) :
    page.stmt e = (Item.ofStmt e).foldlM item page := by
  cases e with
  | branch cond yes no =>
    rw [stmt, Item.ofStmt]
    cases hnone : Block.hasNone no with
    | true => simp [item, block_eq_foldlM _ yes]
    | false => simp [item, block_eq_foldlM _ yes, block_eq_foldlM _ no]
  | loop bound counter body =>
    rw [stmt, Item.ofStmt]
    simp [item, block_eq_foldlM _ body]
  | scope body =>
    rw [stmt, Item.ofStmt]
    simp [item, block_eq_foldlM _ body]
  | done => rfl
  | _ => simp [Item.ofStmt, item]

/-- A block is written item by item. -/
theorem block_eq_foldlM (page : Page) (es : List Expr) :
    page.block es = (Item.ofBlock es).foldlM item page := by
  cases es with
  | nil => rfl
  | cons e es =>
    rw [block, Item.ofBlock, List.foldlM_append, stmt_eq_foldlM page e]
    congr
    ext page' : 1
    exact block_eq_foldlM page' es

end

end Page

/-! ## What is in scope -/

/-- What is in scope at a place of a text: the variables that the innermost block declares before
it, the latest first, and those of the blocks around that one.  With each stands the place of its
declaration. -/
structure Scopes where
  place : Nat
  block : List (String × Nat)
  outer : List (List (String × Nat))
deriving DecidableEq, Repr

namespace Scopes

/-- The start of a body. -/
def start : Scopes :=
  ⟨0, [], []⟩

/-- Open a block with some variables. -/
def enter (s : Scopes) (block : List (String × Nat)) : Scopes :=
  ⟨s.place + 1, block, s.block :: s.outer⟩

/-- Close a block; the outermost one stays open. -/
def leave (s : Scopes) : Scopes :=
  match s.outer with
  | [] => { s with place := s.place + 1 }
  | block :: outer => ⟨s.place + 1, block, outer⟩

/-- Declare variables in the innermost block. -/
def declare (s : Scopes) (names : List String) : Scopes :=
  ⟨s.place + 1, names.map (·, s.place) ++ s.block, s.outer⟩

/-- Go past an item. -/
def pass (s : Scopes) : Item → Scopes
  | .branch _ | .scope => s.enter []
  | .otherwise => s.leave.enter []
  | .loop counter => s.enter [(counter, s.place)]
  | .close => s.leave
  | .test .. => s.declare []
  | .stmt e => s.declare e.binds?.toList

/-- What is in scope after the first items of a body. -/
def after (items : List Item) : Scopes :=
  items.foldl pass start

/-- All variables in scope, the innermost first. -/
def declarations (s : Scopes) : List (String × Nat) :=
  s.block ++ s.outer.flatten

/-- The names of all variables in scope. -/
def names (s : Scopes) : List String :=
  s.declarations.map Prod.fst

/-- Where the variable is declared that a name denotes.  A name without such a place denotes what it
denotes outside the body. -/
def declaration? (s : Scopes) (x : String) : Option Nat :=
  s.declarations.lookup x

/-- The innermost block declares more variables, and the blocks around it are as before. -/
def Adds (s s' : Scopes) (added : List String) : Prop :=
  s.place ≤ s'.place ∧ s'.outer = s.outer ∧ ∃ own : List (String × Nat),
    own.map Prod.fst = added.reverse ∧ (∀ d ∈ own, s.place ≤ d.2) ∧ s'.block = own ++ s.block

variable {s s' s'' : Scopes} {added more : List String}

theorem adds_self (s : Scopes) : s.Adds s [] :=
  ⟨Nat.le_refl _, rfl, [], rfl, by simp, rfl⟩

theorem Adds.trans (h : s.Adds s' added) (h' : s'.Adds s'' more) : s.Adds s'' (added ++ more) := by
  obtain ⟨hplace, houter, own, hnames, hown, hblock⟩ := h
  obtain ⟨hplace', houter', own', hnames', hown', hblock'⟩ := h'
  refine ⟨by omega, houter'.trans houter, own' ++ own, ?_, ?_, ?_⟩
  · rw [List.map_append, hnames, hnames', List.reverse_append]
  · rw [List.forall_mem_append]
    exact ⟨fun d hd => Nat.le_trans hplace (hown' d hd), hown⟩
  · rw [hblock', hblock, List.append_assoc]

theorem adds_declare (s : Scopes) (name : Option String) :
    s.Adds (s.declare name.toList) name.toList := by
  refine ⟨Nat.le_succ _, rfl, _, ?_, ?_, rfl⟩
  · cases name <;> rfl
  · simp

/-- When a block is closed, what was in scope before it is in scope again. -/
theorem Adds.leave {block : List (String × Nat)} (h : (s.enter block).Adds s' added) :
    s.Adds s'.leave [] := by
  obtain ⟨hplace, houter, -⟩ := h
  replace hplace : s.place + 1 ≤ s'.place := hplace
  replace houter : s'.outer = s.block :: s.outer := houter
  rw [Scopes.leave, houter]
  exact ⟨by dsimp only; omega, rfl, [], rfl, by simp, rfl⟩

theorem isSome_declaration?_iff {x : String} : (s.declaration? x).isSome = true ↔ x ∈ s.names := by
  rw [declaration?, List.lookup_isSome_iff, names, List.mem_map]
  simp only [beq_iff_eq, eq_comm (a := x)]

theorem mem_names_enter {block : List (String × Nat)} {x : String} :
    x ∈ (s.enter block).names ↔ x ∈ block.map Prod.fst ∨ x ∈ s.names := by
  simp [Scopes.names, declarations, enter]

theorem Adds.mem_names_iff (h : s.Adds s' added) {x : String} :
    x ∈ s'.names ↔ x ∈ added ∨ x ∈ s.names := by
  obtain ⟨-, houter, own, hnames, -, hblock⟩ := h
  rw [Scopes.names, declarations, houter, hblock, List.append_assoc, List.map_append, hnames,
    List.mem_append, List.mem_reverse]
  rfl

mutual

/-- A statement declares the name that it binds. -/
theorem adds_ofStmt (s : Scopes) (e : Expr) :
    s.Adds ((Item.ofStmt e).foldl pass s) e.binds?.toList := by
  cases e with
  | branch cond yes no =>
    have hyes := (adds_ofBlock (s.enter []) yes).leave
    simp only [Item.ofStmt, List.cons_append, List.foldl_cons, List.foldl_append]
    split
    · exact hyes
    · exact hyes.trans (adds_ofBlock (enter _ []) no).leave
  | loop bound counter body =>
    have hbody := adds_ofBlock (s.enter [(counter.getD Word.counter, s.place)]) body
    rw [Item.ofStmt, List.cons_append, List.foldl_cons, List.foldl_append]
    exact (hbody.trans (adds_declare _ none)).leave
  | scope body =>
    rw [Item.ofStmt, List.cons_append, List.foldl_cons, List.foldl_append]
    exact (adds_ofBlock (s.enter []) body).leave
  | done => exact s.adds_self
  | _ => exact s.adds_declare _

/-- A block declares the names that its own statements bind. -/
theorem adds_ofBlock (s : Scopes) (es : List Expr) :
    s.Adds ((Item.ofBlock es).foldl pass s) (Block.ownNames es) := by
  cases es with
  | nil => exact s.adds_self
  | cons e es =>
    rw [Item.ofBlock, List.foldl_append, Block.ownNames_cons]
    exact (adds_ofStmt s e).trans (adds_ofBlock _ es)

end

/-! ## Loops -/

/-- All variables in scope are declared before the place. -/
def IsEarlier (s : Scopes) : Prop :=
  ∀ d ∈ s.declarations, d.2 < s.place

theorem IsEarlier.enter (h : s.IsEarlier) {block : List (String × Nat)}
    (hblock : ∀ d ∈ block, d.2 ≤ s.place) : (s.enter block).IsEarlier := by
  intro d hd
  rcases List.mem_append.mp hd with hd | hd
  · exact Nat.lt_succ_of_le (hblock d hd)
  · exact Nat.lt_succ_of_lt (h d hd)

theorem IsEarlier.leave (h : s.IsEarlier) : s.leave.IsEarlier := by
  unfold IsEarlier declarations at h
  unfold Scopes.leave
  split
  · exact fun d hd => Nat.lt_succ_of_lt (h d hd)
  · rename_i block outer houter
    intro d hd
    rw [houter] at h
    exact Nat.lt_succ_of_lt (h d (List.mem_append_right _ hd))

theorem IsEarlier.declare (h : s.IsEarlier) (names : List String) :
    (s.declare names).IsEarlier := by
  intro d hd
  rw [declarations, Scopes.declare, List.append_assoc, List.mem_append] at hd
  rcases hd with hd | hd
  · obtain ⟨name, -, rfl⟩ := List.mem_map.mp hd
    exact Nat.lt_succ_self _
  · exact Nat.lt_succ_of_lt (h d hd)

/-- Going past an item keeps all declarations before the place. -/
theorem IsEarlier.pass (h : s.IsEarlier) (item : Item) : (s.pass item).IsEarlier := by
  cases item with
  | branch | scope => exact h.enter (by simp)
  | otherwise => exact h.leave.enter (by simp)
  | loop counter => exact h.enter (by simp)
  | close => exact h.leave
  | test | stmt => exact h.declare _

/-- What is in scope after some items is declared by these. -/
theorem isEarlier_after (items : List Item) : (after items).IsEarlier := by
  have hrun : ∀ {s : Scopes}, s.IsEarlier → (items.foldl Scopes.pass s).IsEarlier := by
    induction items with
    | nil => exact id
    | cons item items ih => exact fun h => ih (h.pass item)
  exact hrun (by simp [IsEarlier, declarations, start])

/-- Among later and earlier declarations a name denotes what it denotes among the earlier ones
exactly if none of the later ones declares it. -/
theorem lookup_append_eq_iff {later earlier : List (String × Nat)} {place : Nat}
    (hlater : ∀ d ∈ later, place ≤ d.2) (hearlier : ∀ d ∈ earlier, d.2 < place) {x : String} :
    (later ++ earlier).lookup x = earlier.lookup x ↔ x ∉ later.map Prod.fst := by
  have hmem : ∀ {ds : List (String × Nat)} {n : Nat}, ds.lookup x = some n → (x, n) ∈ ds := by
    intro ds n hfound
    obtain ⟨first, rest, rfl, -⟩ := List.lookup_eq_some_iff.mp hfound
    simp
  rw [List.lookup_append]
  cases hfound : later.lookup x with
  | none =>
    rw [List.lookup_eq_none_iff] at hfound
    simp only [Option.none_or, true_iff, List.mem_map, not_exists, not_and]
    rintro d hd rfl
    simpa using hfound d hd
  | some n =>
    have hn := hmem hfound
    refine iff_of_false ?_ (not_not_intro (List.mem_map_of_mem hn))
    -- the same place would be both later and earlier
    intro hsame
    have hlt := hearlier _ (hmem hsame.symm)
    have hle := hlater _ hn
    omega

/-- At the end of a loop a name denotes what it denotes before the loop exactly if it is not the
counter, and the body does not bind it. -/
theorem declaration?_loop_iff (hs : s.IsEarlier) (counter : String) (body : List Expr)
    (x : String) :
    ((Item.ofBlock body).foldl pass (s.pass (.loop counter))).declaration? x = s.declaration? x ↔
      x ≠ counter ∧ x ∉ Block.ownNames body := by
  obtain ⟨-, houter, own, hnames, hown, hblock⟩ := adds_ofBlock (s.pass (.loop counter)) body
  replace hown : ∀ d ∈ own, s.place + 1 ≤ d.2 := hown
  have hlater : ∀ d ∈ own ++ [(counter, s.place)], s.place ≤ d.2 := by
    intro d hd
    rcases List.mem_append.mp hd with hd | hd
    · exact Nat.le_of_succ_le (hown d hd)
    · obtain rfl := List.mem_singleton.mp hd
      exact Nat.le_refl _
  rw [declaration?, declarations, houter, hblock]
  refine (lookup_append_eq_iff hlater hs).trans ?_
  rw [List.map_append, hnames]
  simp [and_comm]

end Scopes

end Target

end ShaderLang
