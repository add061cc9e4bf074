import ShaderLang.Expr.Basic
import ShaderLang.Grammar.Mark

/-!
# Comment markers

A comment reaches the grammar as a marker `#[line = "text"]` or `#[block = "text"]`.  In a block it
is a statement of its own; inside an expression and between declarations it is passed over.  A
reader of a marker stops after the text; `strays` finds what may stand after it.
-/

namespace ShaderLang

namespace Grammar

/-- A comment marker stands first. -/
def startsComment : List Token → Bool
  | .punct '#' _ _ :: .group .bracket _ _ :: _ => true
  | _ => false

/-- The text of a string literal that stands first. -/
def text (stop : Span) : List Token → Except Fault (List Char)
  | .literal (.string text) _ :: _ => .ok text
  | tokens => .error (.missing stop tokens .string)

/-- The comment that the brackets of a marker hold. -/
def commentText (stop : Span) (content : List Token) : Except Fault Expr := do
  let isBlock ←
    if startsWord "line" content then pure false
    else if startsWord "block" content then pure true
    else throw (.missing stop content (.oneOf ["line", "block"] false))
  let _ ← mark '=' stop (content.drop 1)
  let text ← text stop (content.drop 2)
  return if isBlock then .blockComment (String.ofList text) else .lineComment (String.ofList text)

/-- Take a comment marker. -/
def comment (stop : Span) (tokens : List Token) : Except Fault (Taken Expr) := do
  let _ ← mark '#' stop tokens
  match tokens.drop 1 with
  | .group .bracket content span :: _ => return ⟨← commentText span.last content, 2⟩
  | rest => throw (.missing stop rest (.group .bracket))

/-- The number of tokens in the comment markers that stand first. -/
def comments : List Token → Except Fault Nat
  | .punct '#' _ _ :: .group .bracket content span :: rest => do
    let _ ← commentText span.last content
    return (← comments rest) + 2
  | _ => .ok 0

/-- The first token that stands in a comment marker after its text, at any depth. -/
def strays : List Token → Option Span
  | .punct '#' _ _ :: .group .bracket content _ :: rest =>
    match content.drop 3 with
    | token :: _ => some token.span
    | [] => strays rest
  | .group _ content _ :: rest => (strays content).or (strays rest)
  | _ :: rest => strays rest
  | [] => none
termination_by tokens => sizeOf tokens

end Grammar

end ShaderLang
