import ShaderLang.Module
import ShaderLang.Word

/-!
# Composition of shaders

The composite of two shaders runs the first one and feeds its outputs to the second one by position.
The outputs of the first become variables of the composite; the second sees them under the names of
its own inputs.
-/

namespace ShaderLang

/-- Why two shaders cannot be composed. -/
inductive Mismatch where
  /-- There are not as many outputs as inputs. -/
  | arity (outputs inputs : Nat)
  /-- An output and the input it feeds have different types. -/
  | types (index : Nat) (output input : Global)
  /-- An output of the first shader would hide a global that the composite needs. -/
  | shadowing (name : String)
deriving DecidableEq, Repr

namespace Mismatch

/-- The message of a mismatch. -/
def message : Mismatch → String
  | arity outputs inputs =>
    "upstream shader has " ++ toString outputs ++ " outputs, but downstream shader takes " ++
      toString inputs ++ " inputs"
  | types index output input =>
    "input #" ++ toString (index + 1) ++ " `" ++ input.ty.display ++ " " ++ input.name ++
      "` does not match output `" ++ output.ty.display ++ " " ++ output.name ++ "`"
  | shadowing name =>
    "output `" ++ name ++ "` of the upstream shader clashes with a global of the composite"

end Mismatch

namespace Shader

/-- The first pair of an output and the input it feeds whose types differ. -/
def typeMismatch? (index : Nat) : List (Global × Global) → Option Mismatch
  | [] => none
  | (output, input) :: rest =>
    if output.ty = input.ty then typeMismatch? (index + 1) rest
    else some (.types index output input)

/-- An output assigns a variable of the composite. -/
def outputToUpdate : Expr → Expr
  | .output name value => .update name value
  | e => e

/-- Bind one name to the value of another. -/
def rebind (name : String) (ty : Ty) (source : String) : Expr :=
  .mutable ty name (.ref source)

/-- Bind the inputs of the second shader to the outputs that feed them.  If an input is named like
one of the outputs, all outputs are read into links before any input is bound. -/
def rebindings (outputs : List Global) (rebound : List (Global × Global)) : List Expr :=
  if rebound.any fun pair => outputs.any (·.name == pair.2.name) then
    let linked := rebound.zipIdx
    linked.map (fun (pair, i) => rebind (Word.link i) pair.1.ty pair.1.name) ++
      linked.map (fun (pair, i) => rebind pair.2.name pair.2.ty (Word.link i))
  else rebound.map fun (output, input) => rebind input.name input.ty output.name

/-- The composite of two shaders for a stage: `up` runs first and feeds `down`. -/
def compose (stage : Stage) (down up : Shader) : Except Mismatch Shader :=
  if up.outputs.length ≠ down.inputs.length then
    .error (.arity up.outputs.length down.inputs.length)
  else
    let pairs := up.outputs.zip down.inputs
    match typeMismatch? 0 pairs with
    | some mismatch => .error mismatch
    | none =>
      match up.outputs.find? fun output =>
          (up.inputs ++ down.outputs).any (·.name == output.name) with
      | some output => .error (.shadowing output.name)
      | none =>
        let rebound := pairs.filter fun (output, input) => output.name != input.name
        .ok {
          stage
          inputs := up.inputs
          outputs := down.outputs
          body := Block.ofStmts <|
            up.outputs.map (fun output => .uninit output.ty output.name) ++
              [.scope (Block.mapStmts outputToUpdate up.body),
                .scope (Block.ofStmts (rebindings up.outputs rebound ++ Block.stmts down.body))] }

end Shader

end ShaderLang
