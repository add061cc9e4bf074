import ShaderLang.Grammar.Mark
import ShaderLang.Word

/-!
# Names

Any identifier that is not reserved is a name; a declaration's name starts with a lower-case letter.
-/

namespace ShaderLang

/-- A name and where it stands. -/
structure Ident where
  text : String
  span : Span
deriving DecidableEq, Repr, Inhabited

namespace Grammar

/-- Take a name. -/
def name (stop : Span) : List Token → Except Fault (Taken Ident)
  | [] => .error (.missing stop [] .token)
  | .ident text span :: _ =>
    if Word.isReserved text then .error ⟨.reservedName text, span⟩ else .ok ⟨⟨text, span⟩, 1⟩
  | token :: _ => .error ⟨.notAName, token.span⟩

/-- A text starts with a lower-case letter of ASCII. -/
def startsLower (text : String) : Bool :=
  match text.toList with
  | c :: _ => c.isLower
  | [] => false

/-- Take the name of a declaration. -/
def declName (stop : Span) (tokens : List Token) : Except Fault (Taken Ident) := do
  let ident ← name stop tokens
  if startsLower ident.value.text then return ident
  else throw ⟨.upperCaseName ident.value.text, ident.value.span⟩

end Grammar

end ShaderLang
