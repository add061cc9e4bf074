import Mathlib.Logic.Relation
import ShaderLang.Proofs.FreeNames
import ShaderLang.Proofs.Placement

/-!
# Execution step by step

What an execution can do with names, whatever the values are.  An execution has tasks left to do and
a stack of frames with the names of the variables; a branch may go either way, and a loop may run
any number of rounds.  Reading, assigning or calling a name is a task of its own, which goes on only
where a frame has a variable of the name.

Main results:

- Theorem `covered_start`: if the free names of a body have variables, every name that its execution
  will use has one when its turn comes.
- Theorem `Covered.step`: a step keeps it so.
- Theorem `Reaches.keeps`: what every step keeps, every execution keeps.
- Theorem `exists_step`: an execution of statements goes on until no task is left, if its names have
  variables.
-/

namespace ShaderLang

namespace Execution

/-! ## Tasks -/

/-- What is done with a name. -/
inductive Use where
  | read
  | assigned
  | called
deriving DecidableEq, Repr

/-- A task of an execution. -/
inductive Task where
  /-- Find the value of an expression. -/
  | eval (e : Expr)
  /-- Execute a statement. -/
  | exec (e : Expr)
  | use (how : Use) (name : String)
  /-- Add a variable to the innermost frame. -/
  | bind (name : String)
  /-- Enter a block, which has a frame of its own. -/
  | enter
  /-- Leave the innermost block. -/
  | leave

/-- The tasks into which the evaluation of a node divides; only a value has some. -/
def valueTasks : Expr → Option (List Task)
  | .int _ | .bool _ | .float _ | .double _ => some []
  | .ref name => some [.use .read name]
  | .call name args => some (args.map .eval ++ [.use .called name])
  | .binary _ x y | .index x y | .vec2 x y => some [.eval x, .eval y]
  | .field base _ => some [.eval base]
  | .vec3 x y z => some [.eval x, .eval y, .eval z]
  | .vec4 x y z w => some [.eval x, .eval y, .eval z, .eval w]
  | .mat4 items | .array items => some (items.map .eval)
  | _ => none

/-- Execute statements in a block of their own, in which some names are bound first. -/
def blockTasks (names : List String) (body : List Expr) : List Task :=
  .enter :: names.map .bind ++ body.map .exec ++ [.leave]

/-- The tasks into which a statement may divide.  A loop may stop before or after its bound is read,
or run a round and go on.  A value that stands as a statement is evaluated. -/
def stmtTasks : Expr → List (List Task)
  | .mutable _ name value | .constant _ name value => [[.eval value, .bind name]]
  | .uninit _ name => [[.bind name]]
  | .update name value | .output name value => [[.eval value, .use .assigned name]]
  | .branch cond yes no => [.eval cond :: blockTasks [] yes, .eval cond :: blockTasks [] no]
  | .loop bound counter body =>
    [[], [.eval bound],
      .eval bound :: blockTasks counter.toList body ++ [.exec (.loop bound counter body)]]
  | .scope body => [blockTasks [] body]
  | .lineComment _ | .blockComment _ | .done => [[]]
  | e => [[.eval e]]

/-! ## Steps -/

/-- Add a variable to the innermost frame. -/
def declare (name : String) : List (List String) → List (List String)
  | [] => [[name]]
  | frame :: outer => (name :: frame) :: outer

/-- A point of an execution: the tasks that are left, the next one first, and the names of the
variables of each block, the innermost block first. -/
structure Point where
  tasks : List Task
  frames : List (List String)

/-- One step of an execution. -/
inductive Step : Point → Point → Prop where
  | eval {e : Expr} {tasks rest : List Task} {frames : List (List String)}
      (htasks : valueTasks e = some tasks) : Step ⟨.eval e :: rest, frames⟩ ⟨tasks ++ rest, frames⟩
  | exec {e : Expr} {tasks rest : List Task} {frames : List (List String)}
      (htasks : tasks ∈ stmtTasks e) : Step ⟨.exec e :: rest, frames⟩ ⟨tasks ++ rest, frames⟩
  | use {how : Use} {name : String} {rest : List Task} {frames : List (List String)}
      (hbound : name ∈ frames.flatten) : Step ⟨.use how name :: rest, frames⟩ ⟨rest, frames⟩
  | bind {name : String} {rest : List Task} {frames : List (List String)} :
      Step ⟨.bind name :: rest, frames⟩ ⟨rest, declare name frames⟩
  | enter {rest : List Task} {frames : List (List String)} :
      Step ⟨.enter :: rest, frames⟩ ⟨rest, [] :: frames⟩
  | leave {rest : List Task} {frames : List (List String)} :
      Step ⟨.leave :: rest, frames⟩ ⟨rest, frames.tail⟩

/-- An execution leads from one point to another. -/
def Reaches : Point → Point → Prop :=
  Relation.ReflTransGen Step

/-- The next task reads, assigns or calls a name that no frame has. -/
def Point.Unbound (point : Point) (name : String) : Prop :=
  ∃ how rest, point.tasks = .use how name :: rest ∧ name ∉ point.frames.flatten

/-- The execution of a body starts with its statements. -/
def start (body : Block) (frames : List (List String)) : Point :=
  ⟨body.map .exec, frames⟩

/-! ## Covered tasks -/

/-- The frames after a statement: what it binds is in the innermost one. -/
def framesAfter (e : Expr) (frames : List (List String)) : List (List String) :=
  match e.binds? with
  | some name => declare name frames
  | none => frames

/-- Every name that is left to be used will have a variable when its turn comes. -/
def Covered : List (List String) → List Task → Prop
  | _, [] => True
  | frames, .eval e :: rest =>
    (∀ x ∈ Scope.freeInExpr e, x ∈ frames.flatten) ∧ Covered frames rest
  | frames, .exec e :: rest =>
    (∀ x ∈ Scope.freeInStmt e, x ∈ frames.flatten) ∧ Covered (framesAfter e frames) rest
  | frames, .use _ name :: rest => name ∈ frames.flatten ∧ Covered frames rest
  | frames, .bind name :: rest => Covered (declare name frames) rest
  | frames, .enter :: rest => Covered ([] :: frames) rest
  | frames, .leave :: rest => Covered frames.tail rest

variable {frames : List (List String)} {rest : List Task}

/-- The values of some expressions are covered if their free names are. -/
theorem covered_evals {es : List Expr} (hfree : ∀ x ∈ Scope.freeInEach es, x ∈ frames.flatten)
    (hrest : Covered frames rest) : Covered frames (es.map .eval ++ rest) := by
  induction es with
  | nil => exact hrest
  | cons e es ih =>
    simp only [Scope.freeInEach, List.forall_mem_append] at hfree
    exact ⟨hfree.1, ih hfree.2⟩

/-- Statements are covered if their free names are; they only add to the innermost frame. -/
theorem covered_stmts {frame : List String} {outer : List (List String)} {es : List Expr}
    (hfree : ∀ x ∈ Scope.freeInBlock es, x ∈ (frame :: outer).flatten)
    (hrest : ∀ frame', Covered (frame' :: outer) rest) :
    Covered (frame :: outer) (es.map .exec ++ rest) := by
  induction es generalizing frame with
  | nil => exact hrest frame
  | cons e es ih =>
    constructor
    · intro x hx
      exact hfree x (Scope.mem_freeInBlock_cons.mpr (Or.inl hx))
    · unfold framesAfter
      cases hbinds : e.binds? with
      | none =>
        apply ih
        intro x hx
        exact hfree x (Scope.mem_freeInBlock_cons.mpr (Or.inr ⟨hx, by simp [hbinds]⟩))
      | some name =>
        apply ih
        intro x hx
        by_cases hname : name = x
        · simp [hname]
        · have hbefore := hfree x
            (Scope.mem_freeInBlock_cons.mpr (Or.inr ⟨hx, by simpa [hbinds] using hname⟩))
          exact List.mem_cons_of_mem name hbefore

/-- A block is covered if the free names of its statements are, those aside that it binds first. -/
theorem covered_block {names : List String} (hnames : names.length ≤ 1) {body : List Expr}
    (hfree : ∀ x ∈ Scope.freeInBlock body, x ∉ names → x ∈ frames.flatten)
    (hrest : Covered frames rest) : Covered frames (blockTasks names body ++ rest) := by
  have hbody : ∀ x ∈ Scope.freeInBlock body, x ∈ (names :: frames).flatten := by
    intro x hx
    by_cases hbound : x ∈ names
    · exact List.mem_append_left _ hbound
    · exact List.mem_append_right _ (hfree x hx hbound)
  have hstmts : Covered (names :: frames) (body.map .exec ++ .leave :: rest) :=
    covered_stmts hbody fun _ => hrest
  match names, hnames with
  | [], _ => simpa [blockTasks, Covered] using hstmts
  | [name], _ => simpa [blockTasks, Covered, declare] using hstmts

/-- The parts of a value are covered if the value is. -/
theorem covered_valueTasks {e : Expr} {tasks : List Task} (htasks : valueTasks e = some tasks)
    (hfree : ∀ x ∈ Scope.freeInExpr e, x ∈ frames.flatten) (hrest : Covered frames rest) :
    Covered frames (tasks ++ rest) := by
  cases e with
  | int | bool | float | double =>
    cases htasks
    exact hrest
  | ref name =>
    cases htasks
    exact ⟨hfree name List.mem_cons_self, hrest⟩
  | call name args =>
    cases htasks
    simp only [Scope.freeInExpr, List.forall_mem_cons] at hfree
    rw [List.append_assoc]
    exact covered_evals hfree.2 ⟨hfree.1, hrest⟩
  | field base name =>
    cases htasks
    exact ⟨hfree, hrest⟩
  | binary op x y | index x y | vec2 x y =>
    cases htasks
    simp only [Scope.freeInExpr, List.forall_mem_append] at hfree
    exact ⟨hfree.1, hfree.2, hrest⟩
  | vec3 x y z =>
    cases htasks
    simp only [Scope.freeInExpr, List.forall_mem_append] at hfree
    exact ⟨hfree.1.1, hfree.1.2, hfree.2, hrest⟩
  | vec4 x y z w =>
    cases htasks
    simp only [Scope.freeInExpr, List.forall_mem_append] at hfree
    exact ⟨hfree.1.1.1, hfree.1.1.2, hfree.1.2, hfree.2, hrest⟩
  | mat4 items | array items =>
    cases htasks
    exact covered_evals hfree hrest
  | _ => cases htasks

/-- The parts of a statement are covered if the statement is. -/
theorem covered_stmtTasks {e : Expr} {tasks : List Task} (htasks : tasks ∈ stmtTasks e)
    (hcovered : Covered frames (.exec e :: rest)) : Covered frames (tasks ++ rest) := by
  have hagain := hcovered
  rcases hcovered with ⟨hfree, hrest⟩
  cases e with
  | mutable ty name value | constant ty name value =>
    obtain rfl := List.mem_singleton.mp htasks
    exact ⟨hfree, hrest⟩
  | uninit ty name =>
    obtain rfl := List.mem_singleton.mp htasks
    exact hrest
  | update name value | output name value =>
    obtain rfl := List.mem_singleton.mp htasks
    simp only [Scope.freeInStmt, Scope.freeInExpr, List.forall_mem_cons] at hfree
    exact ⟨hfree.2, hfree.1, hrest⟩
  | branch cond yes no =>
    simp only [Scope.freeInStmt, Scope.freeInExpr, List.forall_mem_append] at hfree
    rcases hfree with ⟨⟨hcond, hyes⟩, hno⟩
    simp only [stmtTasks, List.mem_cons, List.not_mem_nil, or_false] at htasks
    rcases htasks with rfl | rfl
    · exact ⟨hcond, covered_block (by simp) (fun x hx _ => hyes x hx) hrest⟩
    · exact ⟨hcond, covered_block (by simp) (fun x hx _ => hno x hx) hrest⟩
  | loop bound counter body =>
    have hbound : ∀ x ∈ Scope.freeInExpr bound, x ∈ frames.flatten :=
      fun x hx => hfree x (List.mem_append_left _ hx)
    simp only [stmtTasks, List.mem_cons, List.not_mem_nil, or_false] at htasks
    rcases htasks with rfl | rfl | rfl
    · exact hrest
    · exact ⟨hbound, hrest⟩
    · -- after the round the loop is executed again, in the frames around it
      rw [List.cons_append, List.cons_append, List.append_assoc]
      refine ⟨hbound, covered_block ?_ (fun x hx hcounter => hfree x ?_) hagain⟩
      · cases counter <;> simp
      · apply List.mem_append_right
        rw [List.mem_filter, bne_iff_ne]
        exact ⟨hx, fun hsame => hcounter (by simp [hsame])⟩
  | scope body =>
    obtain rfl := List.mem_singleton.mp htasks
    exact covered_block (by simp) (fun x hx _ => hfree x hx) hrest
  | lineComment | blockComment | done =>
    obtain rfl := List.mem_singleton.mp htasks
    exact hrest
  | _ =>
    obtain rfl := List.mem_singleton.mp htasks
    exact ⟨hfree, hrest⟩

/-- A step keeps all tasks covered. -/
theorem Covered.step {point point' : Point} (hstep : Step point point')
    (h : Covered point.frames point.tasks) : Covered point'.frames point'.tasks := by
  cases hstep with
  | eval htasks => exact covered_valueTasks htasks h.1 h.2
  | exec htasks => exact covered_stmtTasks htasks h
  | use _ => exact h.2
  | bind => exact h
  | enter => exact h
  | leave => exact h

/-- A body starts covered if its free names have variables. -/
theorem covered_start {body : Block} (hframes : frames ≠ [])
    (hfree : ∀ x ∈ Scope.freeInBlock body, x ∈ frames.flatten) :
    Covered (start body frames).frames (start body frames).tasks := by
  cases frames with
  | nil => exact absurd rfl hframes
  | cons frame outer =>
    have hstmts : Covered (frame :: outer) (body.map .exec ++ []) :=
      covered_stmts hfree fun _ => trivial
    rwa [List.append_nil] at hstmts

/-- Where all tasks are covered, the next one uses no name without a variable. -/
theorem Covered.not_unbound {point : Point} (h : Covered point.frames point.tasks) (name : String) :
    ¬ point.Unbound name := by
  rintro ⟨how, rest, htasks, hunbound⟩
  rw [htasks] at h
  exact hunbound h.1

/-! ## Placed tasks -/

/-- What is evaluated is a value at every depth, and what is executed is a statement. -/
def Task.IsPlaced (allowed : Vocabulary) : Task → Prop
  | .eval e => e.IsValue allowed
  | .exec e => e.IsStmt allowed
  | _ => True

variable {allowed : Vocabulary}

/-- Values may be evaluated. -/
theorem isPlaced_evals {es : List Expr} (h : Expr.AreValues allowed es) :
    ∀ task ∈ es.map Task.eval, task.IsPlaced allowed := by
  induction es with
  | nil => simp
  | cons e es ih =>
    rw [List.map_cons, List.forall_mem_cons]
    exact ⟨h.1, ih h.2⟩

/-- Statements may be executed in a block of their own. -/
theorem isPlaced_blockTasks {names : List String} {body : List Expr}
    (h : Expr.AreStmts allowed body) :
    ∀ task ∈ blockTasks names body, task.IsPlaced allowed := by
  intro task htask
  simp only [blockTasks, List.mem_append, List.mem_cons, List.mem_map, List.not_mem_nil,
    or_false] at htask
  rcases htask with ((rfl | ⟨name, -, rfl⟩) | ⟨e, he, rfl⟩) | rfl
  · trivial
  · trivial
  · exact Expr.areStmts_iff.mp h e he
  · trivial

/-- A value divides, and its parts are placed. -/
theorem isPlaced_valueTasks {e : Expr} (h : e.IsValue allowed) :
    ∃ tasks, valueTasks e = some tasks ∧ ∀ task ∈ tasks, task.IsPlaced allowed := by
  cases e with
  | int | bool | float | double => exact ⟨[], rfl, by simp⟩
  | ref name => exact ⟨_, rfl, by simp [Task.IsPlaced]⟩
  | call name args =>
    refine ⟨_, rfl, ?_⟩
    rw [List.forall_mem_append]
    exact ⟨isPlaced_evals h.2, by simp [Task.IsPlaced]⟩
  | field base name => exact ⟨_, rfl, by simpa [Task.IsPlaced] using h.1⟩
  | binary | index | vec2 | vec3 | vec4 =>
    exact ⟨_, rfl, by simpa [Task.IsPlaced, Expr.IsValue] using h⟩
  | mat4 items | array items => exact ⟨_, rfl, isPlaced_evals h⟩
  | _ => exact h.elim

/-- The parts of a statement are placed. -/
theorem isPlaced_stmtTasks {e : Expr} (h : e.IsStmt allowed) {tasks : List Task}
    (htasks : tasks ∈ stmtTasks e) : ∀ task ∈ tasks, task.IsPlaced allowed := by
  have hagain := h
  cases e with
  | mutable | constant | update | output =>
    obtain rfl := List.mem_singleton.mp htasks
    simpa [Task.IsPlaced] using h.2
  | uninit =>
    obtain rfl := List.mem_singleton.mp htasks
    simp [Task.IsPlaced]
  | branch cond yes no =>
    simp only [stmtTasks, List.mem_cons, List.not_mem_nil, or_false] at htasks
    rcases htasks with rfl | rfl
    · exact List.forall_mem_cons.mpr ⟨h.1, isPlaced_blockTasks h.2.1⟩
    · exact List.forall_mem_cons.mpr ⟨h.1, isPlaced_blockTasks h.2.2.1⟩
  | loop bound counter body =>
    simp only [stmtTasks, List.mem_cons, List.not_mem_nil, or_false] at htasks
    rcases htasks with rfl | rfl | rfl
    · simp
    · simpa [Task.IsPlaced] using h.1
    · rw [List.cons_append, List.forall_mem_cons, List.forall_mem_append]
      exact ⟨h.1, isPlaced_blockTasks h.2.2, by simpa [Task.IsPlaced] using hagain⟩
  | scope body =>
    obtain rfl := List.mem_singleton.mp htasks
    exact isPlaced_blockTasks h
  | lineComment | blockComment | done =>
    obtain rfl := List.mem_singleton.mp htasks
    simp
  | _ =>
    obtain rfl := List.mem_singleton.mp htasks
    exact List.forall_mem_singleton.mpr h

/-- A step keeps all tasks placed. -/
theorem isPlaced_step {point point' : Point} (hstep : Step point point')
    (h : ∀ task ∈ point.tasks, task.IsPlaced allowed) :
    ∀ task ∈ point'.tasks, task.IsPlaced allowed := by
  cases hstep with
  | eval htasks =>
    rcases List.forall_mem_cons.mp h with ⟨hvalue, hrest⟩
    rcases isPlaced_valueTasks hvalue with ⟨parts, hparts, hplaced⟩
    rw [htasks, Option.some.injEq] at hparts
    exact List.forall_mem_append.mpr ⟨hparts ▸ hplaced, hrest⟩
  | exec htasks =>
    rcases List.forall_mem_cons.mp h with ⟨hstmt, hrest⟩
    exact List.forall_mem_append.mpr ⟨isPlaced_stmtTasks hstmt htasks, hrest⟩
  | use _ | bind | enter | leave => exact (List.forall_mem_cons.mp h).2

/-! ## Executions -/

/-- What every step keeps, every execution keeps. -/
theorem Reaches.keeps {p : Point → Prop} (hstep : ∀ {a b}, Step a b → p a → p b)
    {point point' : Point} (hreaches : Reaches point point') (h : p point) : p point' := by
  induction hreaches with
  | refl => exact h
  | tail _ hnext ih => exact hstep hnext ih

/-- A statement divides in some way. -/
theorem exists_mem_stmtTasks (e : Expr) : ∃ tasks, tasks ∈ stmtTasks e := by
  cases e <;> exact ⟨_, List.mem_cons_self⟩

/-- An execution goes on until no task is left, if the names have variables and every node stands
where it can. -/
theorem exists_step {point : Point} (hcovered : Covered point.frames point.tasks)
    (hplaced : ∀ task ∈ point.tasks, task.IsPlaced allowed) (hleft : point.tasks ≠ []) :
    ∃ next, Step point next := by
  rcases point with ⟨tasks, frames⟩
  cases tasks with
  | nil => exact absurd rfl hleft
  | cons task rest =>
    have htask := hplaced task List.mem_cons_self
    cases task with
    | eval e =>
      rcases isPlaced_valueTasks htask with ⟨tasks, htasks, -⟩
      exact ⟨_, .eval htasks⟩
    | exec e =>
      rcases exists_mem_stmtTasks e with ⟨tasks, htasks⟩
      exact ⟨_, .exec htasks⟩
    | use how name => exact ⟨_, .use hcovered.1⟩
    | bind name => exact ⟨_, .bind⟩
    | enter => exact ⟨_, .enter⟩
    | leave => exact ⟨_, .leave⟩

end Execution

end ShaderLang
