import ShaderLang.Token.Basic
import ShaderLang.Ty

/-!
# Faults of the grammar

A fault is a cause and the stretch of text that it blames.  What was wanted and not found is blamed
on the next token; where the tokens end it is blamed on the closing delimiter around them, or on
the start of the text if there is none.
-/

namespace ShaderLang

/-- A piece of grammar that a reader can ask for. -/
inductive Wanted where
  | expression
  | operator
  | token
  | string
  | integer
  | group (delim : Delim)
  /-- A certain word. -/
  | word (text : String)
  /-- One of several words, or a group in brackets if `orList`. -/
  | oneOf (words : List String) (orList : Bool)
deriving DecidableEq, Repr

namespace Wanted

/-- A word as a message shows it. -/
def ticked (word : String) : String :=
  "`" ++ word ++ "`"

/-- The name of a pair of delimiters. -/
def groupName : Delim → String
  | .paren => "parentheses"
  | .bracket => "square brackets"
  | .brace => "curly braces"

/-- What a message calls a piece of grammar. -/
def describe : Wanted → String
  | expression => "expression"
  | operator => "binary operator"
  | token => "token tree"
  | string => "string literal"
  | integer => "integer literal"
  | group delim => groupName delim
  | word text => ticked text
  | oneOf words orList =>
    match words.map ticked ++ (if orList then [groupName .bracket] else []) with
    | [a, b] => a ++ " or " ++ b
    | all => "one of: " ++ ", ".intercalate all

end Wanted

/-- Why a text is refused. -/
inductive Cause where
  /-- Something else stands where a piece of grammar was wanted, or nothing is left. -/
  | missing (wanted : Wanted) (atEnd : Bool)
  /-- A punctuation mark was wanted. -/
  | missingMark (mark : String)
  /-- Tokens are left over. -/
  | leftOver
  | notAName
  | reservedName (name : String)
  | upperCaseName (name : String)
  | notANumber
  | unknownSuffix (fraction : Bool) (suffix : String)
  | outOfRange (double : Bool)
  | integerTooLarge
  | integerTooSmall
  | integerNegative
  /-- The least integer of 64 bits is negated. -/
  | integerOverflow
  /-- A vector or matrix has the wrong number of components. -/
  | componentCount (ty : Ty) (wanted found : Nat)
  | unknownShader (name : String)
deriving DecidableEq, Repr

namespace Cause

/-- The message of a cause. -/
def message : Cause → String
  | missing wanted atEnd =>
    (if atEnd then "unexpected end of input, " else "") ++ "expected " ++ wanted.describe
  | missingMark mark => "expected " ++ Wanted.ticked mark
  | leftOver => "unexpected token"
  | notAName => "expected identifier"
  | reservedName name =>
    Wanted.ticked name ++ " is a reserved word and cannot be used as a name"
  | upperCaseName name =>
    "declaration name " ++ Wanted.ticked name ++ " must start with a lowercase letter"
  | notANumber => "expected a numeric literal"
  | unknownSuffix fraction suffix =>
    "unknown " ++ (if fraction then "float" else "integer") ++ " literal suffix " ++
      Wanted.ticked suffix
  | outOfRange double =>
    "literal is out of range for a " ++ (if double then "double" else "float") ++ " value"
  | integerTooLarge => "number too large to fit in target type"
  | integerTooSmall => "number too small to fit in target type"
  | integerNegative => "invalid digit found in string"
  | integerOverflow => "attempt to negate with overflow"
  | componentCount ty wanted found =>
    Wanted.ticked ty.display ++ " takes exactly " ++ toString wanted ++ " components, got " ++
      toString found
  | unknownShader name => "no shader named " ++ Wanted.ticked name ++ " declared before this point"

end Cause

/-- A cause and the stretch of text that it blames. -/
structure Fault where
  cause : Cause
  span : Span
deriving DecidableEq, Repr

namespace Fault

/-- The stretch that is blamed for what stands next: the next token, or else `stop`. -/
def place (stop : Span) : List Token → Span
  | [] => stop
  | token :: _ => token.head

/-- Something was wanted before some tokens that end at `stop`. -/
def missing (stop : Span) (tokens : List Token) (wanted : Wanted) : Fault :=
  ⟨.missing wanted tokens.isEmpty, place stop tokens⟩

/-- A punctuation mark was wanted before some tokens that end at `stop`. -/
def missingMark (stop : Span) (tokens : List Token) (mark : String) : Fault :=
  ⟨.missingMark mark, place stop tokens⟩

end Fault

/-- A value and the number of tokens that it takes from the front. -/
structure Taken (α : Type) where
  value : α
  width : Nat
deriving Repr

end ShaderLang
