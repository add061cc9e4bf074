import ShaderLang.Target.Expr
import ShaderLang.Word

/-!
# Pages of target text

Statements are written line by line onto a page, which remembers how deep it is indented.  Blocks
open and close braces; a line that is longer than one line, such as a comment, is only indented
where it starts.
-/

namespace ShaderLang

namespace Target

/-- A line and how deep it is indented. -/
structure Line where
  depth : Nat
  text : String
deriving DecidableEq, Repr, Inhabited

namespace Line

/-- The text of a line, four blanks deeper for each level. -/
def render (line : Line) : String :=
  String.ofList (List.replicate (4 * line.depth) ' ') ++ line.text ++ "\n"

end Line

/-- A page: the lines written so far and the depth of the next one. -/
structure Page where
  lines : Array Line
  depth : Nat
deriving DecidableEq, Repr, Inhabited

namespace Page

/-- A page without lines. -/
def blank : Page := ⟨#[], 0⟩

/-- Write a line. -/
def line (page : Page) (text : String) : Page :=
  { page with lines := page.lines.push ⟨page.depth, text⟩ }

/-- Leave an empty line. -/
def skip (page : Page) : Page :=
  { page with lines := page.lines.push ⟨0, ""⟩ }

/-- Write further lines one level deeper. -/
def indent (page : Page) : Page :=
  { page with depth := page.depth + 1 }

/-- Write further lines one level less deep. -/
def outdent (page : Page) : Page :=
  { page with depth := page.depth - 1 }

/-- Open a block after its header. -/
def openBlock (page : Page) (header : String) : Page :=
  (page.line (header ++ " \x7b")).indent

/-- Close a block. -/
def closeBlock (page : Page) : Page :=
  page.outdent.line "\x7d"

/-- The text of a page. -/
def text (page : Page) : String :=
  String.join (page.lines.toList.map Line.render)

@[simp]
theorem lines_line (page : Page) (text : String) :
    (page.line text).lines = page.lines.push ⟨page.depth, text⟩ := rfl

@[simp]
theorem depth_line (page : Page) (text : String) : (page.line text).depth = page.depth := rfl

@[simp]
theorem lines_skip (page : Page) : page.skip.lines = page.lines.push ⟨0, ""⟩ := rfl

@[simp]
theorem depth_skip (page : Page) : page.skip.depth = page.depth := rfl

@[simp]
theorem lines_indent (page : Page) : page.indent.lines = page.lines := rfl

@[simp]
theorem depth_indent (page : Page) : page.indent.depth = page.depth + 1 := rfl

@[simp]
theorem lines_outdent (page : Page) : page.outdent.lines = page.lines := rfl

@[simp]
theorem depth_outdent (page : Page) : page.outdent.depth = page.depth - 1 := rfl

/-- What is closed after it was opened leaves the depth as it was. -/
theorem depth_closeBlock_openBlock (page : Page) (header : String) :
    (page.openBlock header).closeBlock.depth = page.depth := by
  simp [openBlock, closeBlock]

/-! ## Statements -/

/-- The number of rounds after which every loop stops, whatever its bound. -/
def loopCeiling : Nat := 10000

/-- The header of a loop. -/
def loopHeader (counter : String) : String :=
  "for (int " ++ counter ++ " = 0; " ++ counter ++ " < " ++ toString loopCeiling ++ "; " ++
    counter ++ "++)"

mutual

/-- Write a statement.  A loop tests its bound after its body, and an empty alternative of a branch
is left out. -/
def stmt (page : Page) : Expr → Except Refusal Page
  | .branch cond yes no => do
    let page := page.openBlock ("if (" ++ (← value cond) ++ ")")
    let page ← page.block yes
    if Block.hasNone no then return page.closeBlock
    else
      let page := (page.outdent.line "\x7d else \x7b").indent
      return (← page.block no).closeBlock
  | .loop bound counter body => do
    let counter := counter.getD Word.counter
    let page ← (page.openBlock (loopHeader counter)).block body
    let page := page.line ("if (" ++ counter ++ " >= " ++ (← value bound) ++ ") break;")
    return page.closeBlock
  | .scope body => do
    let page ← (page.line "\x7b").indent.block body
    return page.closeBlock
  | .lineComment text => .ok (page.line ("//" ++ text))
  | .blockComment text => .ok (page.line ("/*" ++ text ++ "*/"))
  | .done => .ok page
  | e =>
    match e.form with
    | .effect => do return page.line ((← effect e) ++ ";")
    | _ => do return page.line ("return " ++ (← value e) ++ ";")

/-- Write the statements of a block. -/
def block (page : Page) : List Expr → Except Refusal Page
  | [] => .ok page
  | e :: es => do
    let page ← page.stmt e
    page.block es

end

end Page

end Target

end ShaderLang
