/-!
# Positions in a text

Lines count from one and end only at a line feed; columns count characters from zero.
-/

namespace ShaderLang

/-- A place between two characters of a text. -/
structure Pos where
  line : Nat
  column : Nat
deriving DecidableEq, Repr, Inhabited

namespace Pos

/-- The place before the first character. -/
def start : Pos := ⟨1, 0⟩

/-- The place after a character that stands at a place. -/
def next (p : Pos) (c : Char) : Pos :=
  if c = '\n' then ⟨p.line + 1, 0⟩ else ⟨p.line, p.column + 1⟩

/-- The place after a stretch of text that starts at a place. -/
def after (p : Pos) (cs : List Char) : Pos :=
  cs.foldl next p

@[simp] theorem after_nil (p : Pos) : p.after [] = p := rfl

@[simp] theorem after_cons (p : Pos) (c : Char) (cs : List Char) :
    p.after (c :: cs) = (p.next c).after cs := rfl

theorem after_append (p : Pos) (cs ds : List Char) :
    p.after (cs ++ ds) = (p.after cs).after ds := by
  simp [after, List.foldl_append]

end Pos

/-- A stretch of text, from a place up to another one. -/
structure Span where
  start : Pos
  stop : Pos
deriving DecidableEq, Repr, Inhabited

namespace Span

/-- The empty stretch at the start of the text. -/
def origin : Span := ⟨.start, .start⟩

/-- The empty stretch at a place. -/
def point (p : Pos) : Span := ⟨p, p⟩

/-- From the start of one stretch to the end of another. -/
def join (a b : Span) : Span := ⟨a.start, b.stop⟩

/-- The first character of a stretch. -/
def first (s : Span) : Span := ⟨s.start, ⟨s.start.line, s.start.column + 1⟩⟩

/-- The last character of a stretch. -/
def last (s : Span) : Span := ⟨⟨s.stop.line, s.stop.column - 1⟩, s.stop⟩

end Span

end ShaderLang
