import ShaderLang.Composition

/-!
# Events

What happens while a source is loaded and its programs are generated, as lines of a log.
-/

namespace ShaderLang

/-- How much an event matters. -/
inductive Importance where
  | debug
  | info
  | warn
deriving DecidableEq, Repr

namespace Importance

/-- The word for an importance. -/
def label : Importance → String
  | debug => "DEBUG"
  | info => "INFO"
  | warn => "WARN"

end Importance

/-- Something that happens while a source is loaded or generated. -/
inductive Event where
  | uniformAdded (name : String) (ty : Ty)
  | functionAdded (name : String) (params : Nat)
  | shaderAdded (stage : Stage) (name : String) (inputs outputs : Nat)
  | programAdded (name : String) (uniforms attributes : Nat)
  /-- The composite of two shaders has another signature than the one written. -/
  | signatureReplaced (name down up : String)
  | compositionFailed (name : String) (mismatch : Mismatch)
  | functionEmitted (label : String)
  | programGenerated (name : String)
deriving Repr

namespace Event

/-- The event of a shader that is recorded. -/
def ofShader (name : String) (shader : Shader) : Event :=
  .shaderAdded shader.stage name shader.inputs.length shader.outputs.length

/-- How much an event matters. -/
def importance : Event → Importance
  | signatureReplaced .. => .warn
  | programGenerated _ => .info
  | _ => .debug

/-- The message of an event. -/
def message : Event → String
  | uniformAdded name ty => "uniform `" ++ name ++ "`: " ++ ty.display
  | functionAdded name params => "function `" ++ name ++ "` (" ++ toString params ++ " params)"
  | shaderAdded stage name inputs outputs =>
    stage.label ++ " shader `" ++ name ++ "` (" ++ toString inputs ++ " inputs, " ++
      toString outputs ++ " outputs)"
  | programAdded name uniforms attributes =>
    "program `" ++ name ++ "` (" ++ toString uniforms ++ " uniforms, " ++ toString attributes ++
      " attributes)"
  | signatureReplaced name down up =>
    "signature of `" ++ name ++ "` does not match `" ++ down ++ " . " ++ up ++
      "`, using the composed signature"
  | compositionFailed name mismatch => "composition `" ++ name ++ "` failed: " ++ mismatch.message
  | functionEmitted label => "emitting function `" ++ label ++ "`"
  | programGenerated name => "generating program `" ++ name ++ "`"

/-- An event as a line of a log. -/
def line (event : Event) : String :=
  event.importance.label ++ " " ++ event.message

end Event

end ShaderLang
