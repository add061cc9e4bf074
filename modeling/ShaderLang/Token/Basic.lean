import ShaderLang.Text.Position

/-!
# Tokens

A source text is read as a sequence of token trees: identifiers, single punctuation characters,
literals, and groups of tokens between matching delimiters.  Every token knows where it stands.
-/

namespace ShaderLang

/-- The three pairs of delimiters. -/
inductive Delim where
  | paren
  | bracket
  | brace
deriving DecidableEq, Repr, Inhabited

/-- A literal.  A number keeps its spelling, since its suffix and its digits are read later; a
string keeps the text it denotes; characters and bytes have no use in the language and keep
nothing. -/
inductive Literal where
  | number (text : List Char)
  | string (text : List Char)
  | other
deriving DecidableEq, Repr, Inhabited

/-- A token tree. -/
inductive Token where
  /-- A name or keyword; a raw name keeps its `r#`. -/
  | ident (text : String) (span : Span)
  /-- One punctuation character; `joint` says that the next character is punctuation too. -/
  | punct (mark : Char) (joint : Bool) (span : Span)
  | literal (value : Literal) (span : Span)
  /-- The tokens between two delimiters; the span includes both. -/
  | group (delim : Delim) (content : List Token) (span : Span)
deriving Repr, Inhabited

namespace Token

/-- Where a token stands, a group from its opening to its closing delimiter. -/
def span : Token → Span
  | ident _ span => span
  | punct _ _ span => span
  | literal _ span => span
  | group _ _ span => span

/-- Where an error about an unexpected token points: for a group, at its opening delimiter. -/
def head : Token → Span
  | group _ _ span => span.first
  | token => token.span

end Token

end ShaderLang
