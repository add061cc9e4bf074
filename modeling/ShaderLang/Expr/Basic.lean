import ShaderLang.Floating.Format
import ShaderLang.Operator
import ShaderLang.Ty

/-!
# Expressions and blocks

The language does not tell statements from expressions: a body is a block of expressions in source
order, and the form of each decides how it behaves as a statement.  A block always ends with one end
marker.  `Block.mapStmts` changes every statement of a block, also those in nested blocks.
-/

namespace ShaderLang

/-- An expression or statement.  A list of expressions under `branch`, `loop` and `scope` is a
nested block with its end marker. -/
inductive Expr where
  /-- A variable with its first value. -/
  | mutable (ty : Ty) (name : String) (value : Expr)
  /-- A variable without a first value; only composition introduces one. -/
  | uninit (ty : Ty) (name : String)
  /-- A constant. -/
  | constant (ty : Ty) (name : String) (value : Expr)
  /-- An assignment to a variable. -/
  | update (name : String) (value : Expr)
  /-- An assignment to a shader output. -/
  | output (name : String) (value : Expr)
  /-- A choice between two blocks. -/
  | branch (cond : Expr) (yes no : List Expr)
  /-- A counted loop; the counter may be unnamed. -/
  | loop (bound : Expr) (counter : Option String) (body : List Expr)
  /-- A nested block, which composition introduces. -/
  | scope (body : List Expr)
  | int (value : Int)
  | bool (value : Bool)
  | float (value : Single)
  | double (value : Double)
  | vec2 (x y : Expr)
  | vec3 (x y z : Expr)
  | vec4 (x y z w : Expr)
  /-- A matrix, which can be written but not generated. -/
  | mat4 (items : List Expr)
  | ref (name : String)
  | call (name : String) (args : List Expr)
  | binary (op : Operator) (lhs rhs : Expr)
  /-- A field or a choice of components. -/
  | field (base : Expr) (name : String)
  | index (base : Expr) (position : Expr)
  | array (items : List Expr)
  | lineComment (text : String)
  | blockComment (text : String)
  /-- The end marker of a block. -/
  | done
deriving Repr, Inhabited

/-- How an expression behaves as a statement. -/
inductive Form where
  /-- It stands as a statement of its own. -/
  | effect
  /-- Its value is returned. -/
  | value
  /-- It contains blocks. -/
  | control
  /-- It is a comment or the end marker. -/
  | trivia
deriving DecidableEq, Repr

namespace Expr

/-- The form of an expression. -/
def form : Expr → Form
  | mutable .. | uninit .. | constant .. | update .. | output .. | call .. => .effect
  | branch .. | loop .. | scope .. => .control
  | lineComment _ | blockComment _ | done => .trivia
  | _ => .value

/-- The end marker. -/
def isDone : Expr → Bool
  | done => true
  | _ => false

@[simp]
theorem isDone_iff {e : Expr} : e.isDone = true ↔ e = .done := by
  cases e <;> simp [isDone]

end Expr

/-- A block: statements and one end marker after them. -/
abbrev Block := List Expr

namespace Block

/-- The block of some statements; end markers among them are dropped. -/
def ofStmts (exprs : List Expr) : Block :=
  exprs.filter (!·.isDone) ++ [.done]

/-- The block without statements. -/
def empty : Block := ofStmts []

/-- The statements of a block, without its end marker. -/
def stmts (block : Block) : List Expr :=
  block.dropLast

/-- A block has no statements. -/
def hasNone (block : Block) : Bool :=
  block.length == 1

@[simp]
theorem stmts_ofStmts (exprs : List Expr) :
    stmts (ofStmts exprs) = exprs.filter (!·.isDone) := by
  simp [stmts, ofStmts]

/-- The block of some expressions has no statements exactly if all of them are end markers. -/
theorem hasNone_ofStmts_iff (exprs : List Expr) :
    hasNone (ofStmts exprs) = true ↔ ∀ e ∈ exprs, e = .done := by
  simp [hasNone, ofStmts]

/-- Leaving out end markers changes nothing that is collected from expressions, if nothing is
collected from an end marker. -/
theorem flatMap_filter_isDone {α : Type} {f : Expr → List α} (h : f .done = [])
    (exprs : List Expr) : (exprs.filter (!·.isDone)).flatMap f = exprs.flatMap f := by
  induction exprs with
  | nil => rfl
  | cons e exprs ih =>
    cases hdone : e.isDone with
    | true =>
      obtain rfl := Expr.isDone_iff.mp hdone
      simpa [Expr.isDone, h] using ih
    | false => simp [hdone, ih]

/-- Setting end markers right changes nothing that is collected from expressions, if nothing is
collected from an end marker. -/
theorem flatMap_ofStmts {α : Type} {f : Expr → List α} (h : f .done = []) (exprs : List Expr) :
    (ofStmts exprs).flatMap f = exprs.flatMap f := by
  rw [ofStmts, List.flatMap_append, flatMap_filter_isDone h, List.flatMap_singleton, h,
    List.append_nil]

mutual

/-- Change a statement: the function is applied to it, or inside of it if it contains blocks. -/
def mapStmt (f : Expr → Expr) : Expr → Expr
  | .branch cond yes no => .branch cond (ofStmts (mapEach f yes)) (ofStmts (mapEach f no))
  | .loop bound counter body => .loop bound counter (ofStmts (mapEach f body))
  | .scope body => .scope (ofStmts (mapEach f body))
  | e => f e

/-- Change each statement of a list. -/
def mapEach (f : Expr → Expr) : List Expr → List Expr
  | [] => []
  | e :: es => mapStmt f e :: mapEach f es

end

/-- Change every statement of a block and of the blocks nested in it.  The end marker is changed
too; what it becomes is kept before the new end marker. -/
def mapStmts (f : Expr → Expr) (block : Block) : Block :=
  ofStmts (mapEach f block)

end Block

end ShaderLang
