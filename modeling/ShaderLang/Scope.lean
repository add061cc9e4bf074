import ShaderLang.Expr.Basic

/-!
# Names in scope

A name is visible in a body if it is bound before its use: as a global, a parameter, a local of the
same or an enclosing block, a loop counter, or by the target language.  `unresolved` lists the names
that are used where they are not visible.
-/

namespace ShaderLang

/-- The names that the target language provides. -/
def builtins : List String :=
  ["radians", "degrees", "sin", "cos", "tan", "asin", "acos", "atan", "pow", "exp", "log", "exp2",
   "log2", "sqrt", "inversesqrt", "abs", "sign", "floor", "ceil", "fract", "mod", "min", "max",
   "clamp", "mix", "step", "smoothstep", "length", "distance", "dot", "cross", "normalize",
   "faceforward", "reflect", "refract", "matrixCompMult", "lessThan", "lessThanEqual",
   "greaterThan", "greaterThanEqual", "equal", "notEqual", "any", "all", "not", "texture2D",
   "textureCube", "float", "int", "bool", "vec2", "vec3", "vec4", "mat2", "mat3", "mat4",
   "gl_Position", "gl_PointSize", "gl_FragCoord", "gl_FrontFacing", "gl_FragColor",
   "gl_FragData", "gl_PointCoord"]

/-- The names bound so far, block by block, the innermost block first. -/
structure Env where
  names : List String
  outer : List (List String)
deriving Repr, Inhabited

namespace Env

/-- An environment of global names. -/
def global (names : List String) : Env :=
  ⟨names, []⟩

/-- Enter a block. -/
def child (env : Env) : Env :=
  ⟨[], env.names :: env.outer⟩

/-- Leave a block; the outermost one is not left. -/
def parent (env : Env) : Env :=
  match env.outer with
  | [] => env
  | names :: outer => ⟨names, outer⟩

/-- Bind a name in the innermost block. -/
def bind (env : Env) (name : String) : Env :=
  { env with names := env.names ++ [name] }

/-- A name is visible. -/
def resolves (env : Env) (name : String) : Bool :=
  env.names.contains name || env.outer.any (·.contains name) || builtins.contains name

@[simp]
theorem parent_child (env : Env) : env.child.parent = env := rfl

@[simp]
theorem resolves_child (env : Env) (name : String) :
    env.child.resolves name = env.resolves name := by
  simp [child, resolves]

/-- A bound name is visible, and so is every other name that was visible before. -/
theorem resolves_bind (env : Env) (bound name : String) :
    (env.bind bound).resolves name = (name == bound || env.resolves name) := by
  simp only [bind, resolves, List.contains_eq_mem, List.mem_append, List.mem_singleton]
  grind

end Env

namespace Scope

/-- Note a name that is not visible, unless it is noted already. -/
def note (env : Env) (missing : List String) (name : String) : List String :=
  if env.resolves name || missing.contains name then missing else missing ++ [name]

mutual

/-- Note the names that an expression uses and that are not visible.  A binding in the place of a
value binds and uses nothing. -/
def inExpr (env : Env) (missing : List String) : Expr → List String
  | .ref name => note env missing name
  | .update name value | .output name value => inExpr env (note env missing name) value
  | .call name args => inEach env (note env missing name) args
  | .binary _ lhs rhs => inExpr env (inExpr env missing lhs) rhs
  | .field base _ => inExpr env missing base
  | .index base position => inExpr env (inExpr env missing base) position
  | .vec2 x y => inExpr env (inExpr env missing x) y
  | .vec3 x y z => inExpr env (inExpr env (inExpr env missing x) y) z
  | .vec4 x y z w => inExpr env (inExpr env (inExpr env (inExpr env missing x) y) z) w
  | .mat4 items | .array items => inEach env missing items
  | .branch cond yes no =>
    inBlock env.child (inBlock env.child (inExpr env missing cond) yes) no
  | .loop bound counter body =>
    let inner :=
      match counter with
      | some name => env.child.bind name
      | none => env.child
    inBlock inner (inExpr env missing bound) body
  | .scope body => inBlock env.child missing body
  | .mutable .. | .uninit .. | .constant .. => missing
  | .int _ | .bool _ | .float _ | .double _ => missing
  | .lineComment _ | .blockComment _ | .done => missing

/-- Note the names that some expressions use. -/
def inEach (env : Env) (missing : List String) : List Expr → List String
  | [] => missing
  | e :: es => inEach env (inExpr env missing e) es

/-- Note the names that the statements of a block use; a binding is visible after its statement. -/
def inBlock (env : Env) (missing : List String) : List Expr → List String
  | [] => missing
  | .mutable _ name value :: rest => inBlock (env.bind name) (inExpr env missing value) rest
  | .constant _ name value :: rest => inBlock (env.bind name) (inExpr env missing value) rest
  | .uninit _ name :: rest => inBlock (env.bind name) missing rest
  | e :: rest => inBlock env (inExpr env missing e) rest

end

end Scope

/-- The names that a body uses where they are not visible, each once, in the order of first use. -/
def unresolved (env : Env) (body : Block) : List String :=
  Scope.inBlock env.child [] body

end ShaderLang
