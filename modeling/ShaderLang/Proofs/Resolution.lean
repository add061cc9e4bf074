import ShaderLang.Proofs.Pipeline
import ShaderLang.Proofs.Stepping

/-!
# Clean bodies use only bound names

A body in which the lint notes nothing uses no name without a variable, whatever its execution does.
This holds step by step, for every way that branches and loops may go, and it holds of every
execution with values: such an execution does nothing that the steps do not allow.

Main results:

- Theorem `exec_follows`: an execution with values follows the steps.
- Theorem `bound_of_unresolved_eq_nil`: a clean body never reads, assigns or calls an unbound name.
-/

namespace ShaderLang

namespace Execution

/-! ## Computations and tasks -/

/-- A computation follows some tasks: its results are reached when the tasks are done, and if it
ends at an unbound name, so may the tasks. -/
structure Follows {α : Type} (tasks : List Task) (frames : List (List String))
    (x : Except Stuck α) (after : α → List (List String) → Prop) : Prop where
  ok : ∀ a, x = .ok a →
    ∃ frames', after a frames' ∧ ∀ rest, Reaches ⟨tasks ++ rest, frames⟩ ⟨rest, frames'⟩
  unbound : ∀ name, x = .error (.unbound name) →
    ∀ rest, ∃ point, Reaches ⟨tasks ++ rest, frames⟩ point ∧ point.Unbound name

section Follows

variable {α β : Type} {tasks first second : List Task} {frames frames' : List (List String)}
variable {x : Except Stuck α} {f : α → Except Stuck β}
variable {mid : α → List (List String) → Prop} {after : β → List (List String) → Prop}

/-- Nothing is to be done for a result that is there. -/
theorem Follows.done {a : α} (h : mid a frames) : Follows [] frames (.ok a) mid where
  ok := by
    rintro _ ⟨⟩
    exact ⟨frames, h, fun _ => .refl⟩
  unbound := by
    rintro _ ⟨⟩

/-- An execution that ends for another reason than an unbound name follows all tasks. -/
theorem Follows.stuck {cause : Stuck} (h : ∀ name, cause ≠ .unbound name) :
    Follows tasks frames (.error cause) mid where
  ok := by
    rintro _ ⟨⟩
  unbound := by
    rintro name ⟨⟩
    exact absurd rfl (h name)

/-- A failure leaves the tasks after it undone. -/
theorem Follows.fail {cause : Stuck} (h : Follows first frames (.error cause) mid) :
    Follows (first ++ second) frames (.error cause) after where
  ok := by
    rintro _ ⟨⟩
  unbound := by
    rintro name ⟨⟩ rest
    rw [List.append_assoc]
    exact h.unbound name rfl (second ++ rest)

/-- What is done after a result may hang on where it was reached. -/
theorem Follows.go {a : α} {y : Except Stuck β} {p : List Task → Prop}
    (h : Follows first frames (.ok a) mid)
    (hnext : ∀ frames', mid a frames' → ∃ second, p second ∧ Follows second frames' y after) :
    ∃ second, p second ∧ Follows (first ++ second) frames y after := by
  rcases h.ok a rfl with ⟨frames', hmid, hreach⟩
  rcases hnext frames' hmid with ⟨second, hsecond, hfollows⟩
  refine ⟨second, hsecond, ?_, ?_⟩
  · intro b hb
    rcases hfollows.ok b hb with ⟨frames'', hafter, hreach'⟩
    refine ⟨frames'', hafter, fun rest => ?_⟩
    rw [List.append_assoc]
    exact (hreach (second ++ rest)).trans (hreach' rest)
  · intro name hname rest
    rcases hfollows.unbound name hname rest with ⟨point, hpoint, hunbound⟩
    rw [List.append_assoc]
    exact ⟨point, (hreach (second ++ rest)).trans hpoint, hunbound⟩

/-- A sequence of computations follows a sequence of tasks. -/
theorem Follows.bind (hfirst : Follows first frames x mid)
    (hsecond : ∀ a frames', mid a frames' → Follows second frames' (f a) after) :
    Follows (first ++ second) frames (x >>= f) after := by
  cases x with
  | error cause => exact hfirst.fail
  | ok a =>
    rcases hfirst.go fun frames' hmid => ⟨second, rfl, hsecond a frames' hmid⟩ with ⟨_, rfl, hgo⟩
    exact hgo

/-- A first step may be taken before the computation. -/
theorem Follows.step {task : Task}
    (hstep : ∀ rest, Step ⟨task :: rest, frames⟩ ⟨tasks ++ rest, frames'⟩)
    (h : Follows tasks frames' x mid) : Follows [task] frames x mid where
  ok := by
    intro a ha
    rcases h.ok a ha with ⟨frames'', hmid, hreach⟩
    exact ⟨frames'', hmid, fun rest => .head (hstep rest) (hreach rest)⟩
  unbound := by
    intro name hname rest
    rcases h.unbound name hname rest with ⟨point, hreach, hunbound⟩
    exact ⟨point, .head (hstep rest) hreach, hunbound⟩

/-- A statement may be done in any of the ways into which it divides. -/
theorem Follows.exec {e : Expr} (htasks : tasks ∈ stmtTasks e) (h : Follows tasks frames x mid) :
    Follows [.exec e] frames x mid :=
  h.step fun _ => .exec htasks

/-- Which way a statement goes may hang on what its first part gives. -/
theorem Follows.choose {e : Expr} (hfirst : Follows first frames x mid)
    (hway : first ++ second ∈ stmtTasks e)
    (hrest : ∀ a frames', mid a frames' →
      ∃ second, first ++ second ∈ stmtTasks e ∧ Follows second frames' (f a) after) :
    Follows [.exec e] frames (x >>= f) after := by
  cases x with
  | error cause => exact .exec hway hfirst.fail
  | ok a =>
    rcases hfirst.go (hrest a) with ⟨second, hsecond, hgo⟩
    exact .exec hsecond hgo

/-- A computation that uses a name either finds a variable or ends there. -/
theorem Follows.use {how : Use} {name : String}
    (hok : ∀ a, x = .ok a → name ∈ frames.flatten ∧ mid a frames)
    (hunbound : ∀ other, x = .error (.unbound other) → other = name ∧ name ∉ frames.flatten) :
    Follows [.use how name] frames x mid where
  ok := by
    intro a ha
    rcases hok a ha with ⟨hbound, hmid⟩
    exact ⟨frames, hmid, fun _ => .single (.use hbound)⟩
  unbound := by
    intro other hother rest
    rcases hunbound other hother with ⟨rfl, hnone⟩
    exact ⟨_, .refl, how, rest, rfl, hnone⟩

end Follows

/-! ## Expressions -/

variable {V : Type}

/-- The names of the variables of a memory, those of the global variables outermost. -/
def namesOf (frames : List (Frame V)) (globals : Frame V) : List (List String) :=
  shape frames ++ [globals.map Prod.fst]

/-- A name has a variable exactly if it is found in the blocks or among the global variables. -/
theorem mem_namesOf_iff {frames : List (Frame V)} {globals : Frame V} {x : String} :
    x ∈ (namesOf frames globals).flatten ↔
      (frames.flatten.lookup x).or (globals.lookup x) ≠ none := by
  have hglobals := @Twin.lookup_eq_none_iff _ [globals] x
  rw [List.flatten_singleton] at hglobals
  rw [Ne, Option.or_eq_none_iff, Twin.lookup_eq_none_iff, hglobals, ← not_or, not_not, namesOf,
    List.flatten_append, List.mem_append]
  rfl

/-- An evaluation follows some tasks, whatever the global variables are. -/
def Evaluates {α : Type} (frames : List (Frame V)) (tasks : List Task) (act : Action V α) : Prop :=
  ∀ globals, Follows tasks (namesOf frames globals) (act globals)
    fun result names => names = namesOf frames result.2

section Evaluates

variable {α β : Type} {frames : List (Frame V)}

/-- A result that is there needs no evaluation. -/
theorem Evaluates.pure (a : α) : Evaluates frames [] (Pure.pure a) :=
  fun _ => Follows.done rfl

/-- A result that may be refused needs no evaluation. -/
theorem Evaluates.ofOption (result : Option α) : Evaluates frames [] (Action.ofOption result) := by
  intro globals
  cases result with
  | none => exact Follows.stuck (by simp)
  | some a => exact Follows.done rfl

/-- Evaluations are done one after the other. -/
theorem Evaluates.bind {first second : List Task} {act : Action V α} {next : α → Action V β}
    (hfirst : Evaluates frames first act) (hsecond : ∀ a, Evaluates frames second (next a)) :
    Evaluates frames (first ++ second) (act >>= next) := by
  intro globals
  apply (hfirst globals).bind
  rintro ⟨a, globals'⟩ names rfl
  exact hsecond a globals'

/-- A value is evaluated part by part. -/
theorem Evaluates.divide {e : Expr} {tasks : List Task} {act : Action V α}
    (htasks : valueTasks e = some tasks) (h : Evaluates frames tasks act) :
    Evaluates frames [.eval e] act :=
  fun globals => (h globals).step fun _ => .eval htasks

/-- Reading a variable uses its name. -/
theorem evaluates_readName (name : String) :
    Evaluates frames [.use .read name] (readName frames name) := by
  intro globals
  rw [readName_eq]
  apply Follows.use
  · intro result hresult
    rcases hfound : (frames.flatten.lookup name).or (globals.lookup name) with _ | _ | value <;>
      rw [hfound] at hresult <;> cases hresult
    exact ⟨mem_namesOf_iff.mpr (by simp [hfound]), rfl⟩
  · intro other hother
    rcases hnone : (frames.flatten.lookup name).or (globals.lookup name) with _ | _ | value <;>
      rw [hnone] at hother <;> cases hother
    exact ⟨rfl, fun hbound => mem_namesOf_iff.mp hbound hnone⟩

/-- Calling a function uses its name. -/
theorem evaluates_callName (I : Meaning V) (name : String) (args : List V) :
    Evaluates frames [.use .called name] (callName I frames name args) := by
  intro globals
  have hcall : callName I frames name args globals =
      if (frames.flatten.lookup name).isSome then .error (.hidden name)
      else if (globals.lookup name).isNone then .error (.unbound name)
      else (I.function name args fun x => (globals.lookup x).join).elim (.error .undefined)
        fun result => .ok (result.1, globals.map fun pair => (pair.1, result.2 pair.1)) := by
    unfold callName
    split
    · rfl
    · simp only [bind, StateT.bind, get, getThe, MonadStateOf.get, StateT.get, Pure.pure,
        Except.pure, Except.bind]
      split
      · rfl
      · cases I.function name args fun x => (globals.lookup x).join <;> rfl
  rw [hcall]
  by_cases hhidden : (frames.flatten.lookup name).isSome
  · rw [if_pos hhidden]
    exact Follows.stuck (by simp)
  · rw [if_neg hhidden]
    by_cases hmissing : (globals.lookup name).isNone
    · rw [if_pos hmissing]
      apply Follows.use
      · rintro _ ⟨⟩
      · rintro _ ⟨⟩
        refine ⟨rfl, fun hbound => mem_namesOf_iff.mp hbound ?_⟩
        rw [Option.or_eq_none_iff]
        exact ⟨Option.not_isSome_iff_eq_none.mp hhidden, Option.isNone_iff_eq_none.mp hmissing⟩
    · rw [if_neg hmissing]
      cases I.function name args fun x => (globals.lookup x).join with
      | none => exact Follows.stuck (by simp)
      | some result =>
        apply Follows.use
        · rintro _ ⟨⟩
          refine ⟨mem_namesOf_iff.mpr ?_, by simp [namesOf, Function.comp_def]⟩
          rw [Ne, Option.or_eq_none_iff]
          rintro ⟨-, hnone⟩
          exact hmissing (by simp [hnone])
        · rintro _ ⟨⟩

mutual

/-- An evaluation follows the steps. -/
theorem eval_follows (I : Meaning V) (frames : List (Frame V)) (e : Expr) :
    Evaluates frames [.eval e] (eval I frames e) := by
  cases e with
  | int | bool | float | double => exact .divide rfl (.pure _)
  | ref name => exact .divide rfl (evaluates_readName name)
  | call name args =>
    apply Evaluates.divide rfl
    exact (evalEach_follows I frames args).bind fun values => evaluates_callName I name values
  | field base name =>
    apply Evaluates.divide rfl
    exact (eval_follows I frames base).bind fun _ => .ofOption _
  | binary op x y | index x y | vec2 x y =>
    apply Evaluates.divide rfl
    exact (eval_follows I frames x).bind fun _ =>
      (eval_follows I frames y).bind fun _ => .ofOption _
  | vec3 x y z =>
    apply Evaluates.divide rfl
    exact (eval_follows I frames x).bind fun _ => (eval_follows I frames y).bind fun _ =>
      (eval_follows I frames z).bind fun _ => .ofOption _
  | vec4 x y z w =>
    apply Evaluates.divide rfl
    exact (eval_follows I frames x).bind fun _ => (eval_follows I frames y).bind fun _ =>
      (eval_follows I frames z).bind fun _ => (eval_follows I frames w).bind fun _ => .ofOption _
  | mat4 items | array items =>
    apply Evaluates.divide rfl
    rw [← List.append_nil (items.map Task.eval)]
    exact (evalEach_follows I frames items).bind fun _ => .ofOption _
  | _ => exact fun _ => Follows.stuck (by simp)

/-- Evaluations of some expressions follow the steps. -/
theorem evalEach_follows (I : Meaning V) (frames : List (Frame V)) (es : List Expr) :
    Evaluates frames (es.map .eval) (evalEach I frames es) := by
  cases es with
  | nil => exact .pure []
  | cons e es =>
    have hrest : ∀ value, Evaluates frames (es.map .eval ++ [])
        (evalEach I frames es >>= fun values => pure (value :: values)) :=
      fun value => (evalEach_follows I frames es).bind fun values => .pure (value :: values)
    simp only [List.append_nil] at hrest
    exact (eval_follows I frames e).bind hrest

end

end Evaluates

/-! ## Statements -/

/-- A stack of names is that of a memory in which some blocks have been entered. -/
structure Mirrors (depth : Nat) (m : Memory V) (names : List (List String)) : Prop where
  names_eq : names = namesOf m.frames m.globals
  depth_eq : m.frames.length = depth + 1

section Mirrors

variable {depth : Nat} {m : Memory V} {names : List (List String)}

/-- A binding adds the name to the innermost frame. -/
theorem Mirrors.bind (h : Mirrors depth m names) (name : String) (value : Option V) :
    Mirrors depth (m.bind name value) (declare name names) := by
  rcases m with ⟨frames, globals⟩
  cases frames with
  | nil => exact absurd h.depth_eq (by simp)
  | cons frame outer =>
    rcases h with ⟨rfl, hdepth⟩
    exact ⟨rfl, hdepth⟩

/-- A block that is entered has a frame of its own. -/
theorem Mirrors.enter (h : Mirrors depth m names) : Mirrors (depth + 1) m.enter ([] :: names) := by
  rcases h with ⟨rfl, hdepth⟩
  exact ⟨rfl, by simp [Memory.enter, hdepth]⟩

/-- Leaving a block removes its frame. -/
theorem Mirrors.leave (h : Mirrors (depth + 1) m names) : Mirrors depth m.leave names.tail := by
  rcases m with ⟨frames, globals⟩
  cases frames with
  | nil => exact absurd h.depth_eq (by simp)
  | cons frame outer =>
    rcases h with ⟨rfl, hdepth⟩
    exact ⟨rfl, Nat.succ.inj hdepth⟩

/-- An assignment uses its name and changes no names. -/
theorem Mirrors.assign (h : Mirrors depth m names) (name : String) (value : V) :
    Follows [.use .assigned name] names (m.assign name value) (Mirrors depth) := by
  rcases h with ⟨rfl, hdepth⟩
  unfold Memory.assign
  apply Follows.use
  · intro m' hm'
    split at hm'
    · rename_i frames hframes
      cases hm'
      have hfound : m.frames.flatten.lookup name ≠ none := by
        rw [Ne, ← assignIn_eq_none_iff, hframes]
        simp
      have hshape := shape_assignIn hframes
      refine ⟨mem_namesOf_iff.mpr fun hnone => hfound (Option.or_eq_none_iff.mp hnone).1, ?_, ?_⟩
      · rw [namesOf, namesOf, hshape]
      · rw [← hdepth]
        simpa [shape] using congrArg List.length hshape
    · split at hm'
      · rename_i globals hglobals
        cases hm'
        have hfound : m.globals.lookup name ≠ none := by
          rw [Ne, ← Frame.assign_eq_none_iff value, hglobals]
          simp
        refine ⟨mem_namesOf_iff.mpr fun hnone => hfound (Option.or_eq_none_iff.mp hnone).2, ?_,
          hdepth⟩
        rw [namesOf, namesOf, Frame.names_assign hglobals]
      · cases hm'
  · intro other hother
    split at hother
    · cases hother
    · rename_i hframes
      split at hother
      · cases hother
      · rename_i hglobals
        cases hother
        refine ⟨rfl, fun hbound => mem_namesOf_iff.mp hbound ?_⟩
        rw [Option.or_eq_none_iff]
        exact ⟨assignIn_eq_none_iff.mp hframes, (Frame.assign_eq_none_iff value).mp hglobals⟩

/-- A value is evaluated before the rest of a statement. -/
theorem Mirrors.eval (h : Mirrors depth m names) (I : Meaning V) (e : Expr) :
    Follows [.eval e] names (eval I m.frames e m.globals)
      fun result => Mirrors depth { m with globals := result.2 } := by
  rcases h with ⟨rfl, hdepth⟩
  rcases eval_follows I m.frames e m.globals with ⟨hok, hunbound⟩
  refine ⟨fun result hresult => ?_, hunbound⟩
  rcases hok result hresult with ⟨names', rfl, hreach⟩
  exact ⟨_, ⟨rfl, hdepth⟩, hreach⟩

end Mirrors

/-- An execution follows some tasks from every memory. -/
def Executes (tasks : List Task) (run : Memory V → Except Stuck (Memory V)) : Prop :=
  ∀ depth m names, Mirrors depth m names → Follows tasks names (run m) (Mirrors depth)

section Executes

variable {I : Meaning V} {body : List Expr} {counter : Option String}

/-- A block that is entered has a frame of its own, with the counter of a loop in it. -/
theorem executes_enterRound (round : Nat) {depth : Nat} {m : Memory V} {names : List (List String)}
    (hm : Mirrors depth m names) :
    Follows (.enter :: counter.toList.map .bind) names (.ok (enterRound I counter round m))
      (Mirrors (depth + 1)) := by
  have henter : Follows [.enter] names (.ok m.enter) (Mirrors (depth + 1)) :=
    (Follows.done hm.enter).step fun _ => .enter
  cases counter with
  | none => exact henter
  | some name =>
    have hbind : Follows ([.enter] ++ [.bind name]) names
        (.ok m.enter >>= fun m' => .ok (m'.bind name (some (I.counter round))))
        (Mirrors (depth + 1)) :=
      henter.bind fun m' names' hm' => (Follows.done (hm'.bind name _)).step fun _ => .bind
    exact hbind

/-- A block is executed in a frame of its own. -/
theorem executes_block (hbody : Executes (body.map .exec) (execBlock I body)) (round : Nat) :
    Executes (blockTasks counter.toList body) fun m =>
      (execBlock I body (enterRound I counter round m)).map Memory.leave := by
  intro depth m names hm
  have hmap : ∀ x : Except Stuck (Memory V), x.map Memory.leave = x >>= fun m' => .ok m'.leave := by
    rintro (_ | _) <;> rfl
  have hinside : Follows (.enter :: counter.toList.map .bind ++ body.map .exec) names
      (execBlock I body (enterRound I counter round m)) (Mirrors (depth + 1)) :=
    (executes_enterRound round hm).bind fun m' names' hm' => hbody _ m' names' hm'
  beta_reduce
  rw [hmap]
  apply hinside.bind
  intro m' names' hm'
  exact (Follows.done hm'.leave).step fun _ => .leave

/-- A block that is not the body of a loop has no counter. -/
theorem executes_unnamed (hbody : Executes (body.map .exec) (execBlock I body)) :
    Executes (blockTasks [] body) fun m => (execBlock I body m.enter).map Memory.leave :=
  @executes_block V I body none hbody 0

/-- A loop goes round after round. -/
theorem executes_rounds {bound : Expr} (hbody : Executes (body.map .exec) (execBlock I body))
    (fuel round : Nat) :
    Executes [.exec (.loop bound counter body)]
      (rounds (entersRound I bound)
        (fun round m => (execBlock I body (enterRound I counter round m)).map Memory.leave)
        fuel round) := by
  induction fuel generalizing round with
  | zero =>
    intro depth m names hm
    exact .exec List.mem_cons_self (.done hm)
  | succ fuel ih =>
    intro depth m names hm
    have henters : Follows ([.eval bound] ++ []) names (entersRound I bound round m)
        fun result => Mirrors depth result.2 := by
      apply (hm.eval I bound).bind
      intro result names' hm'
      dsimp only
      cases I.enters round result.1 with
      | none => exact .stuck (by simp)
      | some more => exact .done hm'
    rw [List.append_nil] at henters
    have hround : [.eval bound] ++
        (blockTasks counter.toList body ++ [.exec (.loop bound counter body)]) ∈
        stmtTasks (.loop bound counter body) := by
      simp [stmtTasks]
    apply henters.choose hround
    rintro ⟨more, m'⟩ names' hm'
    cases more with
    | false => exact ⟨[], by simp [stmtTasks], .done hm'⟩
    | true =>
      refine ⟨_, hround, ?_⟩
      apply (executes_block hbody round depth m' names' hm').bind
      intro m'' names'' hm''
      exact ih (round + 1) depth m'' names'' hm''

mutual

/-- An execution of a statement follows the steps. -/
theorem exec_follows (I : Meaning V) (e : Expr) : Executes [.exec e] (exec I e) := by
  intro depth m names hm
  cases e with
  | mutable ty name value | constant ty name value =>
    apply Follows.exec List.mem_cons_self
    apply (hm.eval I value).bind
    intro result names' hm'
    exact (Follows.done (hm'.bind name _)).step fun _ => .bind
  | uninit ty name =>
    apply Follows.exec List.mem_cons_self
    exact (Follows.done (hm.bind name none)).step fun _ => .bind
  | update name value | output name value =>
    apply Follows.exec List.mem_cons_self
    apply (hm.eval I value).bind
    intro result names' hm'
    exact hm'.assign name _
  | branch cond yes no =>
    have hyes : [.eval cond] ++ blockTasks [] yes ∈ stmtTasks (.branch cond yes no) := by
      simp [stmtTasks]
    have hno : [.eval cond] ++ blockTasks [] no ∈ stmtTasks (.branch cond yes no) := by
      simp [stmtTasks]
    apply (hm.eval I cond).choose hyes
    intro result names' hm'
    have hrunYes := executes_unnamed (execBlock_follows I yes) depth _ names' hm'
    have hrunNo := executes_unnamed (execBlock_follows I no) depth _ names' hm'
    dsimp only
    rcases I.truth result.1 with _ | _ | _
    · exact ⟨_, hyes, .stuck (by simp)⟩
    · exact ⟨_, hno, hrunNo⟩
    · exact ⟨_, hyes, hrunYes⟩
  | loop bound counter body =>
    exact executes_rounds (execBlock_follows I body) I.ceiling 0 depth m names hm
  | scope body =>
    apply Follows.exec List.mem_cons_self
    exact executes_unnamed (execBlock_follows I body) depth m names hm
  | call name args =>
    apply Follows.exec List.mem_cons_self
    apply (hm.eval I (.call name args)).bind
    intro result names' hm'
    exact .done hm'
  | lineComment | blockComment | done =>
    exact .exec List.mem_cons_self (.done hm)
  | _ => exact Follows.stuck (by simp)

/-- An execution of statements follows the steps. -/
theorem execBlock_follows (I : Meaning V) (es : List Expr) :
    Executes (es.map .exec) (execBlock I es) := by
  intro depth m names hm
  cases es with
  | nil => exact .done hm
  | cons e es =>
    apply (exec_follows I e depth m names hm).bind
    intro m' names' hm'
    exact execBlock_follows I es depth m' names' hm'

end

end Executes

/-! ## Clean bodies -/

/-- Every environment has names: those that the target language provides. -/
theorem ne_nil_of_resolves {env : Env} {frames : List (List String)}
    (h : ∀ x, env.resolves x = true → x ∈ frames.flatten) : frames ≠ [] := by
  rintro rfl
  have hbuiltin : env.resolves "abs" = true := by simp [Env.resolves, builtins]
  simpa using h "abs" hbuiltin

/-- The lint is sound for execution.  Let a body be clean in an environment, and let there be
variables for all names that are visible there, also for those that the target language provides.
Then no execution of the body reads, assigns or calls a name without a variable, whichever way its
branches go and however often its loops run; if all nodes stand where they can, an execution goes on
until nothing is left to do.  Nor does any execution with values end at an unbound name. -/
theorem bound_of_unresolved_eq_nil {env : Env} {body : Block} (hclean : unresolved env body = []) :
    (∀ frames : List (List String), (∀ x, env.resolves x = true → x ∈ frames.flatten) →
      ∀ point, Reaches (start body frames) point →
        (∀ x, ¬ point.Unbound x) ∧
        ∀ allowed, Expr.AreStmts allowed body →
          point.tasks = [] ∨ ∃ next, Step point next) ∧
    ∀ (V : Type) (I : Meaning V) (m : Memory V), m.frames ≠ [] →
      (∀ x, env.resolves x = true → x ∈ (namesOf m.frames m.globals).flatten) →
      ∀ x, execBlock I body m ≠ .error (.unbound x) := by
  have hfree := unresolved_eq_nil_iff.mp hclean
  have hcovered : ∀ frames : List (List String),
      (∀ x, env.resolves x = true → x ∈ frames.flatten) →
      ∀ point, Reaches (start body frames) point → Covered point.frames point.tasks := by
    intro frames hframes point hreaches
    exact hreaches.keeps Covered.step
      (covered_start (ne_nil_of_resolves hframes) fun x hx => hframes x (hfree x hx))
  constructor
  · intro frames hframes point hreaches
    have hpoint := hcovered frames hframes point hreaches
    refine ⟨hpoint.not_unbound, fun allowed hstmts => ?_⟩
    have hplaced : ∀ task ∈ point.tasks, task.IsPlaced allowed := by
      apply hreaches.keeps isPlaced_step
      intro task htask
      rcases List.mem_map.mp htask with ⟨e, he, rfl⟩
      exact Expr.areStmts_iff.mp hstmts e he
    rw [or_iff_not_imp_left]
    exact exists_step hpoint hplaced
  · intro V I m hlocal hframes x hunbound
    rcases List.exists_cons_of_ne_nil hlocal with ⟨frame, outer, hm⟩
    have hmirrors : Mirrors outer.length m (namesOf m.frames m.globals) := ⟨rfl, by simp [hm]⟩
    rcases (execBlock_follows I body _ _ _ hmirrors).unbound x hunbound [] with
      ⟨point, hreaches, hpoint⟩
    rw [List.append_nil] at hreaches
    exact (hcovered _ hframes point hreaches).not_unbound x hpoint

/-- Adds up squares in a loop, leaving out zero. -/
def squares : Block :=
  Block.ofStmts
    [.mutable .int "s" (.int 0),
      .loop (.ref "n") (some "i") (Block.ofStmts
        [.constant .int "d" (.binary .mul (.ref "i") (.ref "i")),
          .branch (.ref "d")
            (Block.ofStmts [.update "s" (.binary .add (.ref "s") (.ref "d"))]) (Block.ofStmts [])]),
      .output "r" (.ref "s")]

/-- After some steps the sum is read, which has a variable then, and an execution with integers ends
at no unbound name. -/
theorem not_unbound_squares :
    unresolved (.global ["n", "r"]) squares = [] ∧
      (∃ rest frames,
        Reaches (start squares [["n", "r"], builtins]) ⟨.use .read "s" :: rest, frames⟩ ∧
        ¬ Point.Unbound ⟨.use .read "s" :: rest, frames⟩ "s") ∧
      execBlock integers squares
        ⟨[[("n", some 4), ("r", none)]], builtins.map fun name => (name, none)⟩ ≠
          .error (.unbound "s") := by
  have hclean : unresolved (.global ["n", "r"]) squares = [] := by decide
  have hbound : ∀ x, (Env.global ["n", "r"]).resolves x = true →
      x ∈ [["n", "r"], builtins].flatten := by
    intro x hx
    simpa [Env.resolves, Env.global, or_assoc] using hx
  -- the sum is declared, the loop is passed over, and the sum is read for the output
  have hreaches : Reaches (start squares [["n", "r"], builtins])
      ⟨[.use .read "s", .use .assigned "r", .exec .done], [["s", "n", "r"], builtins]⟩ := by
    refine .head (.exec List.mem_cons_self) ?_
    refine .head (.eval rfl) ?_
    refine .head .bind ?_
    refine .head (.exec List.mem_cons_self) ?_
    refine .head (.exec List.mem_cons_self) ?_
    exact .head (.eval rfl) .refl
  refine ⟨hclean, ⟨_, _, hreaches, ?_⟩, ?_⟩
  · exact ((bound_of_unresolved_eq_nil hclean).1 _ hbound _ hreaches).1 "s"
  · refine (bound_of_unresolved_eq_nil hclean).2 Int _ _ (List.cons_ne_nil _ _) ?_ "s"
    simpa [namesOf, shape, Function.comp_def] using hbound

end Execution

end ShaderLang
