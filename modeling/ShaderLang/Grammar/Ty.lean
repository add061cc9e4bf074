import ShaderLang.Grammar.Numeral

/-!
# Types

A type is one of the named ones, or an item type and a size in brackets: `[T; n]`.
-/

namespace ShaderLang

namespace Grammar

/-- A type stands first, as far as its first token tells. -/
def startsTy : List Token → Bool
  | .ident text _ :: _ => (Ty.named.lookup text).isSome
  | tokens => startsGroup .bracket tokens

/-- Take a type. -/
def ty (stop : Span) (tokens : List Token) : Except Fault (Taken Ty) :=
  match tokens with
  | .group .bracket content span :: _ => do
    let item ← ty span.last content
    let rest := content.drop item.width
    let _ ← mark ';' span.last rest
    let size ← size span.last (rest.drop 1)
    finish (rest.drop (1 + size.width))
    return ⟨.array item.value (← size.value), 1⟩
  | .ident text span :: rest =>
    match Ty.named.lookup text with
    | some ty => .ok ⟨ty, 1⟩
    | none => .error (.missing stop (.ident text span :: rest) wantedTy)
  | tokens => .error (.missing stop tokens wantedTy)
termination_by sizeOf tokens
where
  /-- What a missing type asks for. -/
  wantedTy : Wanted := .oneOf (Ty.named.map (·.1)) true

end Grammar

end ShaderLang
