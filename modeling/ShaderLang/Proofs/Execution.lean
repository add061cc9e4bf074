import ShaderLang.Module

/-!
# Execution of shaders

Bodies are executed with block scoping: a name denotes the latest variable of that name in the
innermost block that has one, and a global variable if no block has one.  A run of a shader gives
its inputs values, executes its body and collects the values of its outputs.

What literals, operators and functions mean is left open.  Values are of any type, and an
interpretation may refuse an operation.  Functions see the global variables and may change them.
-/

namespace ShaderLang

namespace Execution

/-- Why an execution goes no further. -/
inductive Stuck where
  /-- There is no variable or function of the name. -/
  | unbound (name : String)
  /-- The variable has no value yet. -/
  | unset (name : String)
  /-- The function that is called is hidden by a variable. -/
  | hidden (name : String)
  /-- The interpretation gives no result, or the node cannot stand here. -/
  | undefined
deriving DecidableEq, Repr

/-- What literals, operators, functions and loops mean over some values. -/
structure Meaning (V : Type) where
  int : Int → V
  bool : Bool → V
  float : Single → V
  double : Double → V
  vector : List V → Option V
  matrix : List V → Option V
  array : List V → Option V
  operator : Operator → V → V → Option V
  field : V → String → Option V
  index : V → V → Option V
  /-- The result of a function and the values of the global variables after it. -/
  function : String → List V → (String → Option V) → Option (V × (String → Option V))
  truth : V → Option Bool
  /-- The counter of a loop in some round, from zero. -/
  counter : Nat → V
  /-- A loop with a bound enters some round. -/
  enters : Nat → V → Option Bool
  /-- The number of rounds after which every loop stops. -/
  ceiling : Nat

/-! ## Variables -/

/-- Variables with their values, the latest first. -/
abbrev Frame (V : Type) := List (String × Option V)

/-- The variables of the blocks that are being executed, the innermost block first, and the global
variables. -/
structure Memory (V : Type) where
  frames : List (Frame V)
  globals : Frame V
deriving DecidableEq, Repr

variable {V : Type}

namespace Frame

/-- Give the latest variable of a name a value, if there is one. -/
def assign (name : String) (value : V) : Frame V → Option (Frame V)
  | [] => none
  | (other, old) :: rest =>
    if other = name then some ((other, some value) :: rest)
    else (assign name value rest).map ((other, old) :: ·)

end Frame

/-- Give the variable that a name denotes in some blocks a value, if there is one. -/
def assignIn (name : String) (value : V) : List (Frame V) → Option (List (Frame V))
  | [] => none
  | frame :: outer =>
    ((frame.assign name value).map (· :: outer)).or ((assignIn name value outer).map (frame :: ·))

/-- Add a variable to the innermost block. -/
def bindIn (name : String) (value : Option V) : List (Frame V) → List (Frame V)
  | [] => [[(name, value)]]
  | frame :: outer => ((name, value) :: frame) :: outer

namespace Memory

/-- Add a variable to the innermost block. -/
def bind (m : Memory V) (name : String) (value : Option V) : Memory V :=
  { m with frames := bindIn name value m.frames }

/-- Enter a block. -/
def enter (m : Memory V) : Memory V :=
  { m with frames := [] :: m.frames }

/-- Leave the innermost block. -/
def leave (m : Memory V) : Memory V :=
  { m with frames := m.frames.tail }

/-- Give the variable that a name denotes a value. -/
def assign (m : Memory V) (name : String) (value : V) : Except Stuck (Memory V) :=
  match assignIn name value m.frames with
  | some frames => .ok { m with frames }
  | none =>
    match m.globals.assign name value with
    | some globals => .ok { m with globals }
    | none => .error (.unbound name)

end Memory

/-! ## Expressions -/

/-- A computation that may change global variables. -/
abbrev Action (V : Type) := StateT (Frame V) (Except Stuck)

/-- A result that may be refused. -/
def Action.ofOption {α : Type} : Option α → Action V α
  | some a => return a
  | none => throw .undefined

/-- The value of the variable that a name denotes. -/
def readName (frames : List (Frame V)) (name : String) : Action V V := do
  match (frames.flatten.lookup name).or ((← get).lookup name) with
  | some (some value) => return value
  | some none => throw (.unset name)
  | none => throw (.unbound name)

/-- Call a function, which no variable of a block may hide. -/
def callName (I : Meaning V) (frames : List (Frame V)) (name : String) (args : List V) :
    Action V V := do
  if (frames.flatten.lookup name).isSome then throw (.hidden name)
  let globals ← get
  if (globals.lookup name).isNone then throw (.unbound name)
  let (value, values) ← .ofOption (I.function name args fun x => (globals.lookup x).join)
  set (globals.map fun (x, _) => (x, values x))
  return value

mutual

/-- The value of an expression. -/
def eval (I : Meaning V) (frames : List (Frame V)) : Expr → Action V V
  | .int n => return I.int n
  | .bool b => return I.bool b
  | .float x => return I.float x
  | .double x => return I.double x
  | .vec2 x y => do
    Action.ofOption (I.vector [← eval I frames x, ← eval I frames y])
  | .vec3 x y z => do
    Action.ofOption (I.vector [← eval I frames x, ← eval I frames y, ← eval I frames z])
  | .vec4 x y z w => do
    Action.ofOption
      (I.vector [← eval I frames x, ← eval I frames y, ← eval I frames z, ← eval I frames w])
  | .mat4 items => do Action.ofOption (I.matrix (← evalEach I frames items))
  | .array items => do Action.ofOption (I.array (← evalEach I frames items))
  | .ref name => readName frames name
  | .call name args => do callName I frames name (← evalEach I frames args)
  | .binary op lhs rhs => do
    Action.ofOption (I.operator op (← eval I frames lhs) (← eval I frames rhs))
  | .field base name => do Action.ofOption (I.field (← eval I frames base) name)
  | .index base position => do
    Action.ofOption (I.index (← eval I frames base) (← eval I frames position))
  | _ => throw .undefined

/-- The values of some expressions. -/
def evalEach (I : Meaning V) (frames : List (Frame V)) : List Expr → Action V (List V)
  | [] => return []
  | e :: es => return (← eval I frames e) :: (← evalEach I frames es)

end

/-- Evaluate an expression in a memory, and apply a function to its value. -/
def evalThen {α : Type} (I : Meaning V) (e : Expr) (m : Memory V)
    (next : V → Memory V → Except Stuck α) : Except Stuck α := do
  let (value, globals) ← eval I m.frames e m.globals
  next value { m with globals }

/-! ## Statements -/

/-- Run the rounds of a loop from some round on, at most `fuel` of them. -/
def rounds (enters : Nat → Memory V → Except Stuck (Bool × Memory V))
    (body : Nat → Memory V → Except Stuck (Memory V)) :
    Nat → Nat → Memory V → Except Stuck (Memory V)
  | 0, _, m => .ok m
  | fuel + 1, round, m => do
    match ← enters round m with
    | (true, m) => rounds enters body fuel (round + 1) (← body round m)
    | (false, m) => return m

/-- The test before each round of a loop: its bound is read around the loop. -/
def entersRound (I : Meaning V) (bound : Expr) (round : Nat) (m : Memory V) :
    Except Stuck (Bool × Memory V) :=
  evalThen I bound m fun value m =>
    match I.enters round value with
    | some more => .ok (more, m)
    | none => .error .undefined

/-- Enter the body of a loop; its counter is a variable of the body. -/
def enterRound (I : Meaning V) (counter : Option String) (round : Nat) (m : Memory V) : Memory V :=
  match counter with
  | some name => m.enter.bind name (some (I.counter round))
  | none => m.enter

mutual

/-- Execute a statement. -/
def exec (I : Meaning V) : Expr → Memory V → Except Stuck (Memory V)
  | .mutable _ name e, m | .constant _ name e, m =>
    evalThen I e m fun value m => .ok (m.bind name (some value))
  | .uninit _ name, m => .ok (m.bind name none)
  | .update name e, m | .output name e, m =>
    evalThen I e m fun value m => m.assign name value
  | .branch cond yes no, m =>
    evalThen I cond m fun value m =>
      match I.truth value with
      | some true => (execBlock I yes m.enter).map Memory.leave
      | some false => (execBlock I no m.enter).map Memory.leave
      | none => .error .undefined
  | .loop bound counter body, m =>
    rounds (entersRound I bound)
      (fun round m => (execBlock I body (enterRound I counter round m)).map Memory.leave)
      I.ceiling 0 m
  | .scope body, m => (execBlock I body m.enter).map Memory.leave
  | .call name args, m => evalThen I (.call name args) m fun _ m => .ok m
  | .lineComment _, m | .blockComment _, m | .done, m => .ok m
  | _, _ => .error .undefined

/-- Execute the statements of a block one after the other. -/
def execBlock (I : Meaning V) : List Expr → Memory V → Except Stuck (Memory V)
  | [], m => .ok m
  | e :: es, m => do execBlock I es (← exec I e m)

end

/-! ## Shaders -/

/-- Variables with values, matched by position. -/
def valued (globals : List Global) (values : List V) : Frame V :=
  (globals.zip values).map fun pair => (pair.1.name, some pair.2)

/-- Variables without values. -/
def unvalued (globals : List Global) : Frame V :=
  globals.map fun global => (global.name, none)

/-- The variables that a shader starts with: first its inputs with their values, then its outputs
without. -/
def startFrame (shader : Shader) (inputs : List V) : Frame V :=
  (valued shader.inputs inputs ++ unvalued shader.outputs).reverse

/-- The value of an output, which is the earliest variable of its name in the outermost block. -/
def outputValue (m : Memory V) (output : Global) : Except Stuck V :=
  match (m.frames.getLast?.getD []).reverse.lookup output.name with
  | some (some value) => .ok value
  | some none => .error (.unset output.name)
  | none => .error (.unbound output.name)

/-- Run a shader: the values of its outputs and the global variables after it, given the values of
its inputs and the global variables before. -/
def run (I : Meaning V) (shader : Shader) (globals : Frame V) (inputs : List V) :
    Except Stuck (List V × Frame V) := do
  let m ← execBlock I shader.body ⟨[startFrame shader inputs], globals⟩
  return (← shader.outputs.mapM (outputValue m), m.globals)

end Execution

end ShaderLang
