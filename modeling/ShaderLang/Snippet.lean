import ShaderLang.Text.Width

/-!
# Annotated source

A snippet shows a message, a place, and every line of a source with its annotations below it.  An
annotation of one line is underlined; one of several lines has a mark beside each of them.
-/

namespace ShaderLang

/-- The kinds of messages and annotations. -/
inductive Severity where
  | error
  | warning
  | info
deriving DecidableEq, Repr, Inhabited

namespace Severity

/-- The word for a severity. -/
def word : Severity → String
  | error => "error"
  | warning => "warning"
  | info => "info"

/-- The character that underlines. -/
def mark : Severity → Char
  | error => '^'
  | _ => '-'

end Severity

/-- A label for the characters from `start` up to `stop` of a source. -/
structure Annotation where
  severity : Severity
  label : String
  start : Nat
  stop : Nat
deriving Repr

namespace Snippet

/-! ## Colours -/

/-- The ways in which a piece of text can be painted. -/
inductive Paint where
  | severity (level : Severity)
  /-- Line numbers and the arrow before the place. -/
  | frame
  | strong
deriving Repr

namespace Paint

/-- The parameters of a terminal's colour code. -/
def code : Paint → String
  | severity .error => "1;38;5;9"
  | severity .warning => "1;38;5;11"
  | severity .info => "1;38;5;12"
  | frame => "1;38;5;12"
  | strong => "1"

/-- Paint a text if colours are wanted. -/
def apply (paint : Paint) (color : Bool) (text : String) : String :=
  if color then "\x1b[" ++ paint.code ++ "m" ++ text ++ "\x1b[0m" else text

end Paint

/-! ## Lines and rows -/

/-- A line of a source with the positions of its first character and of its end. -/
structure Line where
  text : List Char
  start : Nat
  stop : Nat
deriving Repr

/-- The text of a line without the carriage return at its end. -/
def withoutReturn (text : List Char) : List Char :=
  if text.getLast? = some '\r' then text.dropLast else text

/-- The lines of a source that starts at a position.  A carriage return before the end of a line is
not shown, but counted. -/
def linesFrom (start : Nat) (source : List Char) : List Line :=
  match source with
  | [] => []
  | c :: cs =>
    let raw := (c :: cs).takeWhile (· != '\n')
    match (c :: cs).drop raw.length with
    | [] => [⟨raw, start, start + raw.length⟩]
    | _ =>
      let text := withoutReturn raw
      ⟨text, start, start + text.length⟩ ::
        linesFrom (start + raw.length + 1) (cs.drop raw.length)
termination_by source.length
decreasing_by
  simp only [List.length_drop, List.length_cons]
  omega

/-- What a row shows. -/
inductive Content where
  | source (text : List Char)
  /-- An indent of some character, the marks that underline, and a label. -/
  | note (severity : Severity) (indent : Char) (column count : Nat) (label : String)
deriving Repr

/-- A row of a snippet with the marks beside it. -/
structure Row where
  number : Option Nat
  beside : List (Severity × Char)
  content : Content
deriving Repr

/-- The column of a character of a line: the width of those before it.  The end of the line is one
column wide. -/
def column (line : Line) (count : Nat) : Nat :=
  ((line.text.map Text.width ++ [1]).take count).foldl (· + ·) 0

/-- Put a mark beside the last of some rows. -/
def markLast (mark : Severity × Char) (rows : List Row) : List Row :=
  match rows.getLast? with
  | some row => rows.dropLast ++ [{ row with beside := row.beside ++ [mark] }]
  | none => []

/-- Show an annotation at a line, below the rows that the line has so far, and tell whether it
goes on after the line. -/
def annotate (line : Line) (rows : List Row) (a : Annotation) : List Row × Bool :=
  let note (beside : List (Severity × Char)) (content : Content) : List Row :=
    [⟨none, beside, content⟩]
  let low := column line (a.start - line.start)
  let high := column line (a.stop - line.start)
  if line.stop < a.start then (rows, true)
  else if (line.start ≤ a.start && a.stop ≤ line.stop)
      || (a.start == line.stop && a.stop - a.start ≤ 1) then
    (rows ++ note [] (.note a.severity ' ' low (high - low) a.label), false)
  else if line.start ≤ a.start && line.stop < a.stop then
    if a.start == line.start then (markLast (a.severity, '/') rows, true)
    else (rows ++ note [] (.note a.severity '_' low 1 ""), true)
  else if a.start < line.start && line.stop < a.stop then
    (markLast (a.severity, '|') rows, true)
  else if a.start < line.start && line.start ≤ a.stop && a.stop ≤ line.stop then
    (markLast (a.severity, '|') rows ++
      note [(a.severity, '|')] (.note a.severity '_' (high - 1) 1 a.label), false)
  else (rows, true)

/-- Show all annotations that are not finished at a line, in order, and give those that go on. -/
def annotateAll (line : Line) (rows : List Row) : List Annotation → List Row × List Annotation
  | [] => (rows, [])
  | a :: rest =>
    let (rows, goesOn) := annotate line rows a
    let (rows, pending) := annotateAll line rows rest
    (rows, if goesOn then a :: pending else pending)

/-- The rows of some numbered lines with their annotations. -/
def rows (number : Nat) : List Line → List Annotation → List Row
  | [], _ => []
  | line :: lines, annotations =>
    let (shown, pending) := annotateAll line [⟨some number, [], .source line.text⟩] annotations
    shown ++ rows (number + 1) lines pending

/-! ## Text -/

/-- A text to the right of as much blank as fills a width. -/
def alignRight (width : Nat) (text : String) : String :=
  String.ofList (List.replicate (width - text.length) ' ') ++ text

/-- The label of an annotation; further information says so. -/
def labelText (color : Bool) (severity : Severity) (label : String) : String :=
  let paint := (Paint.severity severity).apply color
  if label.isEmpty then ""
  else
    " " ++ match severity with
      | .info => paint (paint severity.word ++ paint (": " ++ label))
      | _ => paint label

/-- What stands in a row after its number and the marks beside it. -/
def contentText (color : Bool) : Content → String
  | .source text => " " ++ String.ofList text
  | .note severity indent column count label =>
    let line := List.replicate (column + 1) indent ++ List.replicate count severity.mark
    (Paint.severity severity).apply color (String.ofList line) ++ labelText color severity label

/-- The text of a row: its number, the marks beside it if any row has some, and its content. -/
def rowText (color : Bool) (numberWidth besideWidth : Nat) (row : Row) : String :=
  let number := alignRight numberWidth ((row.number.map toString).getD "")
  let beside :=
    if besideWidth == 0 then ""
    else
      " " ++ String.ofList (List.replicate (besideWidth - row.beside.length) ' ') ++
        String.join (row.beside.map fun (severity, mark) =>
          (Paint.severity severity).apply color (String.singleton mark))
  Paint.frame.apply color (number ++ " |") ++ beside ++ contentText color row.content

/-- The place that a snippet names: line and column of a position, from one, on the first line that
holds it or ends there. -/
def placeOf (lines : List Line) (position : Nat) : Nat × Nat :=
  match lines.zipIdx.find? fun (line, _) => line.start ≤ position && position ≤ line.stop with
  | some (line, index) => (index + 1, position - line.start + 1)
  | none => (1, 1)

/-- The text of a snippet. -/
def render (color : Bool) (file : String) (source : List Char) (severity : Severity)
    (message : String) (annotations : List Annotation) : String :=
  let lines := linesFrom 0 source
  let shown := rows 1 lines annotations
  let numberWidth := if lines.isEmpty then 0 else (toString lines.length).length
  let besideWidth := shown.foldl (fun width row => max width row.beside.length) 0
  let title := (Paint.severity severity).apply color severity.word ++
    (if message.isEmpty then "" else ": " ++ Paint.strong.apply color message)
  let place :=
    match annotations with
    | [] => ""
    | a :: _ =>
      let (line, column) := placeOf lines a.start
      ":" ++ toString line ++ ":" ++ toString column
  let origin := alignRight numberWidth "" ++ Paint.frame.apply color "-->" ++ " " ++ file ++ place
  let rule := Paint.frame.apply color (alignRight numberWidth "" ++ " |")
  "\n".intercalate <|
    [title, origin, rule] ++ shown.map (rowText color numberWidth besideWidth) ++ [rule]

end Snippet

end ShaderLang
