import ShaderLang.Declaration
import ShaderLang.Grammar.Block

/-!
# Declarations

A text is a sequence of declarations; comments and semicolons may stand before, between and after
them and mean nothing.  A signature is a list in parentheses, a single parameter, or for a function
that takes nothing the bare type of its result.
-/

namespace ShaderLang

namespace Grammar

/-! ## Signatures -/

/-- Take a type and a name. -/
def param (stop : Span) (tokens : List Token) : Except Fault (Taken Param) := do
  let ty ← ty stop tokens
  let name ← name stop (tokens.drop ty.width)
  return ⟨⟨name.value, ty.value⟩, ty.width + name.width⟩

/-- Parameters with commas between them; a comma may stand after the last one. -/
def params (stop : Span) (tokens : List Token) : Except Fault (List Param) :=
  match tokens with
  | [] => .ok []
  | token :: rest => do
    let first ← param stop (token :: rest)
    match rest.drop (first.width - 1) with
    | [] => return [first.value]
    | next =>
      let _ ← mark ',' stop next
      return first.value :: (← params stop (rest.drop first.width))
termination_by tokens.length
decreasing_by
  simp only [List.length_drop, List.length_cons]
  omega

/-- Take a list of parameters in parentheses, or a single one. -/
def signature (stop : Span) (tokens : List Token) : Except Fault (Taken (List Param)) :=
  match tokens with
  | .group .paren content span :: _ => do return ⟨← params span.last content, 1⟩
  | tokens => do
    let single ← param stop tokens
    return ⟨[single.value], single.width⟩

/-- Take the type of a result after an arrow, if there is one. -/
def result (stop : Span) (tokens : List Token) : Except Fault (Taken (Option Ty)) :=
  if startsPair '-' '>' tokens then do
    let ty ← ty stop (tokens.drop 2)
    return ⟨some ty.value, ty.width + 2⟩
  else .ok ⟨none, 0⟩

/-- A bare type stands before an equals sign. -/
def startsBareResult (stop : Span) (tokens : List Token) : Bool :=
  match ty stop tokens with
  | .ok ty => startsMark '=' (tokens.drop ty.width)
  | .error _ => false

/-- Take the parameters and the result of a function. -/
def funcSignature (stop : Span) (tokens : List Token) :
    Except Fault (Taken (List Param × Option Ty)) := do
  if startsTy tokens && startsBareResult stop tokens then
    let ty ← ty stop tokens
    return ⟨([], some ty.value), ty.width⟩
  else
    let params ← signature stop tokens
    let result ← result stop (tokens.drop params.width)
    return ⟨(params.value, result.value), params.width + result.width⟩

/-! ## Declarations -/

/-- Take a function after its name and the colon. -/
def function (name : Ident) (stop : Span) (tokens : List Token) :
    Except Fault (Taken Declaration) := do
  let signature ← funcSignature stop tokens
  let rest := tokens.drop signature.width
  let _ ← mark '=' stop rest
  let body ← braced stop (rest.drop 1)
  let (params, result) := signature.value
  return ⟨.function name params result body, signature.width + 2⟩

/-- Take a program after its name and the colon. -/
def program (name : Ident) (stop : Span) (tokens : List Token) :
    Except Fault (Taken Declaration) := do
  let _ ← word "Prog" stop tokens
  let _ ← mark '=' stop (tokens.drop 1)
  let _ ← word "mkProg" stop (tokens.drop 2)
  let vertex ← Grammar.name stop (tokens.drop 3)
  let fragment ← Grammar.name stop (tokens.drop 4)
  return ⟨.program name vertex.value fragment.value, 5⟩

/-- Take what follows the signature of a shader: a body, or a composition. -/
def shaderBody (stage : Stage) (name : Ident) (inputs outputs : List Global) (stop : Span)
    (tokens : List Token) : Except Fault (Taken Declaration) := do
  if startsGroup .brace tokens then
    return ⟨.shader stage name inputs outputs (← braced stop tokens), 1⟩
  else
    let down ← Grammar.name stop tokens
    let _ ← mark '.' stop (tokens.drop 1)
    let up ← Grammar.name stop (tokens.drop 2)
    return ⟨.composition stage name inputs outputs down.value up.value, 3⟩

/-- Take a shader after the word for its stage. -/
def shader (stage : Stage) (stop : Span) (tokens : List Token) :
    Except Fault (Taken Declaration) := do
  let name ← declName stop tokens
  let _ ← mark ':' stop (tokens.drop 1)
  let rest := tokens.drop 2
  let inputs ← signature stop rest
  let _ ← pair '-' '>' stop (rest.drop inputs.width)
  let rest := rest.drop (inputs.width + 2)
  let outputs ← signature stop rest
  let _ ← mark '=' stop (rest.drop outputs.width)
  let body ← shaderBody stage name.value (inputs.value.map Param.varying)
    (outputs.value.map Param.varying) stop (rest.drop (outputs.width + 1))
  return ⟨body.value, inputs.width + outputs.width + 5 + body.width⟩

/-- Take a declaration. -/
def declaration (stop : Span) (tokens : List Token) : Except Fault (Taken Declaration) :=
  match tokens with
  | .ident "uniform" _ :: rest => do
    let ty ← ty stop rest
    let name ← declName stop (rest.drop ty.width)
    return ⟨.uniform ty.value name.value, ty.width + 2⟩
  | .ident "vert" _ :: rest => do
    let found ← shader .vertex stop rest
    return ⟨found.value, found.width + 1⟩
  | .ident "frag" _ :: rest => do
    let found ← shader .fragment stop rest
    return ⟨found.value, found.width + 1⟩
  | tokens => do
    let name ← declName stop tokens
    let _ ← mark ':' stop (tokens.drop 1)
    let rest := tokens.drop 2
    let found ← if startsWord "Prog" rest then program name.value stop rest
      else function name.value stop rest
    return ⟨found.value, found.width + 2⟩

/-- All declarations of a text, or those before the first fault and that fault. -/
def declarations (tokens : List Token) : List Declaration × Option Fault :=
  match tokens with
  | [] => ([], none)
  | token :: rest =>
    if startsMark ';' (token :: rest) then declarations rest
    else if startsComment (token :: rest) then
      match comment .origin (token :: rest) with
      | .ok _ => declarations (rest.drop 1)
      | .error fault => ([], some fault)
    else
      match declaration .origin (token :: rest) with
      | .ok found =>
        let (more, fault) := declarations (rest.drop (found.width - 1))
        (found.value :: more, fault)
      | .error fault => ([], some fault)
termination_by tokens.length
decreasing_by
  all_goals simp only [List.length_drop, List.length_cons]; omega

end Grammar

end ShaderLang
