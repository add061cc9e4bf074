import ShaderLang.Lexeme.Basic

/-!
# Token trees

`tokenize` reads a text as token trees.  It fails at the first lexeme that cannot stand where it
does: a character that starts no token, a closing delimiter that does not match the innermost open
one, or, when the text ends, the innermost delimiter that is still open.
-/

namespace ShaderLang

namespace Token

/-- A group that is still open: its delimiter, where it opens, and the tokens before it, latest
first. -/
structure Frame where
  delim : Delim
  place : Pos
  outer : List Token

/-- Put lexemes together to trees, inside some open groups and after some tokens of the innermost
one, latest first. -/
def assemble : List Frame → List Token → List Lexeme → Except Pos (List Token)
  | [], done, [] => .ok done.reverse
  | frame :: _, _, [] => .error frame.place
  | frames, done, .leaf token :: rest => assemble frames (token :: done) rest
  | frames, done, .opener delim place :: rest => assemble (⟨delim, place, done⟩ :: frames) [] rest
  | [], _, .closer _ place :: _ => .error place
  | frame :: frames, done, .closer delim place :: rest =>
    if frame.delim = delim then
      let span : Span := ⟨frame.place, ⟨place.line, place.column + 1⟩⟩
      assemble frames (.group delim done.reverse span :: frame.outer) rest
    else .error place
  | _, _, .fault place :: _ => .error place

end Token

/-- The token trees of a text, or the place where it cannot be read. -/
def tokenize (text : String) : Except Pos (List Token) :=
  Token.assemble [] [] (Lexeme.ofText text.toList)

end ShaderLang
