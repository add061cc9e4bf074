import ShaderLang.Declaration
import ShaderLang.Diagnostic
import ShaderLang.Event
import ShaderLang.Registry
import ShaderLang.Scope

/-!
# Recording declarations

Declarations are checked and recorded one after the other.  A name that is not visible, a shader of
the wrong stage and a composition that fails are only reported; an unknown shader is a fault.
-/

namespace ShaderLang

/-- What is recorded while a source is loaded. -/
structure Progress where
  registry : Registry
  diagnostics : List Diagnostic
  events : List Event
deriving Repr

namespace Progress

/-- Nothing recorded but some earlier diagnostics. -/
def start (diagnostics : List Diagnostic) : Progress :=
  ⟨{}, diagnostics, []⟩

/-- Report each name that a body uses and does not see. -/
def lint (p : Progress) (name : Ident) (visible : List String) (body : Block) : Progress :=
  let missing := unresolved (.global visible) body
  { p with diagnostics := p.diagnostics ++ missing.map (.unresolvedName name) }

/-- The shader that a name refers to. -/
def shader (p : Progress) (name : Ident) : Except Fault Shader :=
  match p.registry.shader? name.text with
  | some shader => .ok shader
  | none => .error ⟨.unknownShader name.text, name.span⟩

/-- Record a uniform. -/
def addUniform (p : Progress) (ty : Ty) (name : Ident) : Progress :=
  { p with
    registry := p.registry.addUniform name.text ty
    events := p.events ++ [.uniformAdded name.text ty] }

/-- Record a function, after its body is checked.  It sees itself and its parameters. -/
def addFunction (p : Progress) (name : Ident) (params : List Param) (result : Option Ty)
    (body : Block) : Progress :=
  let visible := p.registry.visibleNames [] ++ name.text :: params.map (·.name.text)
  let p := p.lint name visible body
  { p with
    registry := p.registry.addFunction
      ⟨name.text, params.map fun param => (param.name.text, param.ty), result,
        .body name.text body⟩
    events := p.events ++ [.functionAdded name.text params.length] }

/-- Record a shader. -/
def addShader (p : Progress) (name : Ident) (shader : Shader) : Progress :=
  { p with
    registry := p.registry.addShader name.text shader
    events := p.events ++ [.ofShader name.text shader] }

/-- Record the composite of two shaders with its own signature, or report why there is none. -/
def addComposite (p : Progress) (stage : Stage) (name : Ident) (inputs outputs : List Global)
    (down up : Ident) (downShader upShader : Shader) : Progress :=
  match Shader.compose stage downShader upShader with
  | .ok shader =>
    if shader.inputs = inputs ∧ shader.outputs = outputs then p.addShader name shader
    else
      let replaced := Event.signatureReplaced name.text down.text up.text
      addShader { p with events := p.events ++ [replaced] } name shader
  | .error mismatch =>
    { p with
      diagnostics := p.diagnostics ++ [.cannotCompose name down up mismatch]
      events := p.events ++ [.compositionFailed name.text mismatch] }

/-- Report a shader that is used for another stage than its own. -/
def checkStage (p : Progress) (program name : Ident) (shader : Shader) (expected : Stage) :
    Progress :=
  if shader.stage = expected then p
  else
    { p with diagnostics := p.diagnostics ++ [.wrongStage program name expected shader.stage] }

/-- Record a program with the uniforms recorded so far. -/
def addProgram (p : Progress) (name vertexName fragmentName : Ident) (vertex fragment : Shader) :
    Progress :=
  let p := (p.checkStage name vertexName vertex .vertex).checkStage name fragmentName fragment
    .fragment
  let program : Program :=
    { uniforms := p.registry.uniformGlobals
      attributes := vertex.inputs.map (·.requalify .attrib)
      vertex
      fragment }
  { p with
    registry := p.registry.addProgram name.text program
    events := p.events ++
      [.programAdded name.text program.uniforms.length program.attributes.length] }

/-- Record a declaration, or find that it names an unknown shader. -/
def declare (p : Progress) : Declaration → Except Fault Progress
  | .uniform ty name => .ok (p.addUniform ty name)
  | .function name params result body => .ok (p.addFunction name params result body)
  | .shader stage name inputs outputs body =>
    .ok ((p.lint name (p.registry.visibleNames (inputs ++ outputs)) body).addShader name
      ⟨stage, inputs, outputs, body⟩)
  | .composition stage name inputs outputs down up => do
    let downShader ← p.shader down
    let upShader ← p.shader up
    return p.addComposite stage name inputs outputs down up downShader upShader
  | .program name vertexName fragmentName => do
    let vertex ← p.shader vertexName
    let fragment ← p.shader fragmentName
    return p.addProgram name vertexName fragmentName vertex fragment

/-- Record declarations up to the first that cannot be recorded. -/
def declareAll (p : Progress) : List Declaration → Progress × Option Fault
  | [] => (p, none)
  | declaration :: rest =>
    match p.declare declaration with
    | .ok p => p.declareAll rest
    | .error fault => (p, some fault)

end Progress

end ShaderLang
