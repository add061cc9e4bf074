import ShaderLang.Module

/-!
# Declarations recorded so far

Declarations are recorded in the order of the text, and a declaration sees only what was recorded
before it.  The latest shader of a name hides the earlier ones.
-/

namespace ShaderLang

/-- The declarations recorded so far. -/
structure Registry where
  uniforms : List Func := []
  functions : List Func := []
  shaders : List (String × Shader) := []
  programs : List (String × Program) := []
deriving Repr, Inhabited

namespace Registry

/-- Record a uniform. -/
def addUniform (r : Registry) (name : String) (ty : Ty) : Registry :=
  { r with uniforms := r.uniforms ++ [.uniform name ty] }

/-- Record a function. -/
def addFunction (r : Registry) (func : Func) : Registry :=
  { r with functions := r.functions ++ [func] }

/-- Record a shader. -/
def addShader (r : Registry) (name : String) (shader : Shader) : Registry :=
  { r with shaders := r.shaders ++ [(name, shader)] }

/-- Record a program. -/
def addProgram (r : Registry) (name : String) (program : Program) : Registry :=
  { r with programs := r.programs ++ [(name, program)] }

/-- The latest shader of a name. -/
def shader? (r : Registry) (name : String) : Option Shader :=
  (r.shaders.reverse.find? (·.1 == name)).map (·.2)

/-- The uniforms as global variables. -/
def uniformGlobals (r : Registry) : List Global :=
  r.uniforms.filterMap Func.global?

/-- What the declarations amount to. -/
def toModule (r : Registry) : Module :=
  ⟨r.functions, r.programs⟩

/-- The names that a body sees beside its own: uniforms, earlier functions and some variables. -/
def visibleNames (r : Registry) (varyings : List Global) : List String :=
  (r.uniforms ++ r.functions ++ varyings.map Func.varying).map Func.name

/-- The shader that was recorded last is the one of its name. -/
@[simp]
theorem shader?_addShader_self (r : Registry) (name : String) (shader : Shader) :
    (r.addShader name shader).shader? name = some shader := by
  simp [addShader, shader?]

/-- A recorded shader hides no shader of another name. -/
theorem shader?_addShader_of_ne (r : Registry) {name other : String} (shader : Shader)
    (h : name ≠ other) : (r.addShader name shader).shader? other = r.shader? other := by
  simp [addShader, shader?, h]

end Registry

end ShaderLang
