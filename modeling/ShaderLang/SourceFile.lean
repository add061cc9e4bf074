import ShaderLang.Masked
import ShaderLang.Snippet

/-!
# Source files

The places of a masked text are led back to the characters of the source file that it comes from,
so that a message can show them there.
-/

namespace ShaderLang

open Text

/-- A source file.  Spans point into its masked text if it has one. -/
structure SourceFile where
  name : String
  source : List Char
  masked : Option Masked

namespace SourceFile

/-- The file of a name and a text. -/
def ofText (name : String) (text : String) : SourceFile :=
  ⟨name, text.toList, (Masked.ofSource text.toList).toOption⟩

/-- The number of characters before an offset in bytes; an offset inside a character or past the end
is moved back. -/
def charAt (file : SourceFile) (offset : Nat) : Nat :=
  charsWithin offset file.source

/-- The offset in bytes of a place.  Without a masked text a line past the last one is the last one,
and the column is counted in bytes. -/
def offsetOf (file : SourceFile) (place : Pos) : Nat :=
  match file.masked with
  | some masked => masked.sourceOffset (masked.offset place)
  | none =>
    let line := min (place.line - 1) (file.source.count '\n')
    byteLength file.source - byteLength (afterLines line file.source) + place.column

/-- The number of characters before a place; line zero is the last character. -/
def position (file : SourceFile) (place : Pos) : Nat :=
  if place.line = 0 then file.source.length - 1 else file.charAt (file.offsetOf place)

/-- The characters of a span. -/
def range (file : SourceFile) (span : Span) : Nat × Nat :=
  (file.position span.start, file.position span.stop)

/-- Two characters from an offset in bytes on, within the source. -/
def offsetRange (file : SourceFile) (offset : Nat) : Nat × Nat :=
  let length := file.source.length
  let start := min (file.charAt offset) (length - 1)
  (start, min (start + 2) length)

/-- An annotation of some characters. -/
def annotation (severity : Severity) (label : String) (range : Nat × Nat) : Annotation :=
  ⟨severity, label, range.1, range.2⟩

/-- An annotation of a span. -/
def annotate (file : SourceFile) (severity : Severity) (label : String) (span : Span) :
    Annotation :=
  annotation severity label (file.range span)

/-- A message with annotations. -/
def report (file : SourceFile) (color : Bool) (severity : Severity) (message : String)
    (annotations : List Annotation) : String :=
  Snippet.render color file.name file.source severity message annotations

end SourceFile

end ShaderLang
