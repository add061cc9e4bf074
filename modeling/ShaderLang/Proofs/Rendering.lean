import ShaderLang.Proofs.Outcome
import ShaderLang.Target.Stage

/-!
# Rendering of pages

A page is written step by step, with a depth that goes up and down on the way.  Here the lines of a
block are given by recursion on its statements, for a depth that is handed down, and the page turns
out to get exactly these lines.  The lines follow a grammar of nested blocks, from which it is seen
that no line stands further out than its block and that every block that is opened is closed.

Main results:

- Theorem `Page.block_eq_map`: a page gets the rendered lines of a block, and is refused if they
  are.
- Theorem `blockLines_nested`, `stageLines_nested`: rendered lines are nested blocks.
- Theorem `Nested.depth_le`, `Nested.balanced`: what nested blocks are like.
- Theorem `emission_eq_rendering`: the emitted lines of blocks and stages.
-/

namespace ShaderLang

namespace Target

/-! ## Structural rendering -/

/-- A block: the line that opens it, what stands in it, and the line that closes it. -/
def enclosed (depth : Nat) (opening : String) (body : List Line) : List Line :=
  ⟨depth, opening⟩ :: (body ++ [⟨depth, "\x7d"⟩])

mutual

/-- The lines of a statement at some depth.  A line stands between the two blocks of a branch
exactly if the second one has statements. -/
def stmtLines (depth : Nat) : Expr → Except Refusal (List Line)
  | .branch cond yes no => do
    let opening := "if (" ++ (← value cond) ++ ")" ++ " \x7b"
    let first ← blockLines (depth + 1) yes
    if Block.hasNone no then return enclosed depth opening first
    else
      let second ← blockLines (depth + 1) no
      return enclosed depth opening (first ++ ⟨depth, "\x7d else \x7b"⟩ :: second)
  | .loop bound counter body => do
    let counter := counter.getD Word.counter
    let lines ← blockLines (depth + 1) body
    let test := "if (" ++ counter ++ " >= " ++ (← value bound) ++ ") break;"
    return enclosed depth (Page.loopHeader counter ++ " \x7b") (lines ++ [⟨depth + 1, test⟩])
  | .scope body => do return enclosed depth "\x7b" (← blockLines (depth + 1) body)
  | .lineComment text => .ok [⟨depth, "//" ++ text⟩]
  | .blockComment text => .ok [⟨depth, "/*" ++ text ++ "*/"⟩]
  | .done => .ok []
  | e =>
    match e.form with
    | .effect => do return [⟨depth, (← effect e) ++ ";"⟩]
    | _ => do return [⟨depth, "return " ++ (← value e) ++ ";"⟩]

/-- The lines of a block at some depth: those of its statements, one after the other. -/
def blockLines (depth : Nat) : List Expr → Except Refusal (List Line)
  | [] => .ok []
  | e :: es => do return (← stmtLines depth e) ++ (← blockLines depth es)

end

/-- The lines that a stage starts with. -/
def frontLines (globals : List Global) : List Line :=
  [⟨0, "precision highp float;"⟩, ⟨0, "precision highp int;"⟩, ⟨0, ""⟩] ++
    globals.map (⟨0, globalLine ·⟩) ++ if globals.isEmpty then [] else [⟨0, ""⟩]

/-- The lines of a function, if it has a body. -/
def functionLines (func : Func) : Except Refusal (List Line) :=
  match func.body? with
  | none => .ok []
  | some body => do return enclosed 0 (header func ++ " \x7b") (← blockLines 1 body) ++ [⟨0, ""⟩]

/-- The lines of the functions that have a body. -/
def functionsLines : List Func → Except Refusal (List Line)
  | [] => .ok []
  | func :: rest => do return (← functionLines func) ++ (← functionsLines rest)

/-- The lines of a stage. -/
def stageLines (globals : List Global) (functions : List Func) (shader : Shader) :
    Except Refusal (List Line) := do
  let funcs ← functionsLines functions
  let body ← blockLines 1 shader.body
  return frontLines globals ++ funcs ++ enclosed 0 "void main() \x7b" body

/-! ## Pages get the rendered lines -/

namespace Page

/-- Add lines of any depth to a page. -/
def extend (page : Page) (lines : List Line) : Page :=
  { page with lines := page.lines ++ lines.toArray }

@[simp]
theorem depth_extend (page : Page) (lines : List Line) :
    (page.extend lines).depth = page.depth := rfl

@[simp]
theorem extend_nil (page : Page) : page.extend [] = page := by
  simp [extend]

@[simp]
theorem extend_extend (page : Page) (first second : List Line) :
    (page.extend first).extend second = page.extend (first ++ second) := by
  simp [extend]

/-- A line is added at the depth of the page. -/
theorem line_eq_extend (page : Page) (text : String) :
    page.line text = page.extend [⟨page.depth, text⟩] := by
  simp [line, extend]

/-- An empty line is added without a depth. -/
theorem skip_eq_extend (page : Page) : page.skip = page.extend [⟨0, ""⟩] := by
  simp [skip, extend]

/-- Lines are added whatever the depth of the page is. -/
@[simp]
theorem extend_indent (page : Page) (lines : List Line) :
    page.indent.extend lines = (page.extend lines).indent := rfl

/-- To go back from a deeper level leaves the page as it was. -/
@[simp]
theorem outdent_indent (page : Page) : page.indent.outdent = page := rfl

mutual

/-- A page gets the lines of a statement. -/
theorem stmt_eq_map (page : Page) (e : Expr) :
    page.stmt e = page.extend <$> stmtLines page.depth e := by
  cases e with
  | branch cond yes no =>
    rw [stmt, stmtLines]
    cases hnone : Block.hasNone no with
    | true => simp [block_eq_map _ yes, openBlock, closeBlock, line_eq_extend, enclosed]
    | false =>
      simp [block_eq_map _ yes, block_eq_map _ no, openBlock, closeBlock, line_eq_extend, enclosed]
  | loop bound counter body =>
    rw [stmt, stmtLines]
    simp [block_eq_map _ body, openBlock, closeBlock, line_eq_extend, enclosed]
  | scope body =>
    rw [stmt, stmtLines]
    simp [block_eq_map _ body, closeBlock, line_eq_extend, enclosed]
  | lineComment text | blockComment text => exact congrArg Except.ok (line_eq_extend page _)
  | done => exact congrArg Except.ok page.extend_nil.symm
  | _ => simp [stmt, stmtLines, Expr.form, line_eq_extend]

/-- A page gets the lines of a block. -/
theorem block_eq_map (page : Page) (es : List Expr) :
    page.block es = page.extend <$> blockLines page.depth es := by
  cases es with
  | nil => exact congrArg Except.ok page.extend_nil.symm
  | cons e es =>
    rw [block, blockLines]
    simp [stmt_eq_map page e, block_eq_map _ es, funext (extend_extend page _)]

end

/-- A page that is not indented gets the declarations of global variables. -/
theorem globals_eq_extend {page : Page} (hdepth : page.depth = 0) (globals : List Global) :
    page.globals globals = page.extend (globals.map (⟨0, globalLine ·⟩) ++
      if globals.isEmpty then [] else [⟨0, ""⟩]) := by
  have hfold : globals.foldl (fun page global => page.line (globalLine global)) page =
      page.extend (globals.map (⟨0, globalLine ·⟩)) := by
    induction globals generalizing page with
    | nil => exact page.extend_nil.symm
    | cons global rest ih =>
      rw [List.foldl_cons, ih ((depth_line _ _).trans hdepth), line_eq_extend, extend_extend,
        hdepth]
      rfl
  rw [Page.globals, hfold]
  split
  · rw [List.append_nil]
  · rw [skip_eq_extend, extend_extend]

/-- A page that is not indented gets the lines of a function. -/
theorem function_eq_map {page : Page} (hdepth : page.depth = 0) (func : Func) :
    page.function func = page.extend <$> functionLines func := by
  unfold function functionLines
  cases func.body? with
  | none => exact congrArg Except.ok page.extend_nil.symm
  | some body =>
    simp [block_eq_map, openBlock, closeBlock, line_eq_extend, skip_eq_extend, enclosed, hdepth]

/-- A page that is not indented gets the lines of functions. -/
theorem functions_eq_map {page : Page} (hdepth : page.depth = 0) (functions : List Func) :
    page.functions functions = page.extend <$> functionsLines functions := by
  induction functions generalizing page with
  | nil => exact congrArg Except.ok page.extend_nil.symm
  | cons func rest ih =>
    rw [functions, functionsLines]
    simp [function_eq_map hdepth, ih, hdepth, funext (extend_extend page _)]

end Page

/-- The page of a stage has the lines of the stage. -/
theorem stagePage_eq_map (globals : List Global) (functions : List Func) (shader : Shader) :
    stagePage globals functions shader =
      Page.blank.extend <$> stageLines globals functions shader := by
  have hfront : Page.blank.preamble.globals globals = Page.blank.extend (frontLines globals) := by
    rw [Page.globals_eq_extend rfl, Page.preamble, Page.skip_eq_extend, Page.line_eq_extend,
      Page.line_eq_extend]
    simp [frontLines, Page.blank]
  rw [stagePage, stageLines, hfront, Page.functions_eq_map rfl]
  simp [Page.block_eq_map, Page.openBlock, Page.closeBlock, Page.line_eq_extend, enclosed,
    Page.blank]

/-! ## Lines that open and close blocks -/

/-- The texts that open a block: those that end with a brace and are no comments. -/
def opensBlock (text : String) : Bool :=
  text.toList.getLast? == some '\x7b' && text.toList.head? != some '/'

/-- The texts that close a block. -/
def closesBlock (text : String) : Bool :=
  text == "\x7d" || text == "\x7d else \x7b"

/-- The texts that start neither like a comment nor like the end of a block. -/
def startsPlain (text : String) : Bool :=
  text.toList.head?.any fun c => c != '/' && c != '\x7d'

/-- How a text starts does not depend on what follows. -/
theorem startsPlain_append {text : String} (h : startsPlain text = true) (more : String) :
    startsPlain (text ++ more) = true := by
  unfold startsPlain at h ⊢
  rw [String.toList_append, List.head?_append]
  cases hhead : text.toList.head? with
  | none => simp [hhead] at h
  | some c => simpa [hhead] using h

/-- What closes a block starts with a brace. -/
theorem closesBlock_eq_false {text : String} (h : text.toList.head? ≠ some '\x7d') :
    closesBlock text = false := by
  rw [closesBlock, Bool.or_eq_false_iff, beq_eq_false_iff_ne, beq_eq_false_iff_ne]
  constructor
  all_goals
    rintro rfl
    exact h rfl

/-- What ends like a statement neither opens nor closes a block. -/
theorem not_block_terminated (text : String) {ending : String}
    (h : ending.toList.getLast? = some ';') :
    opensBlock (text ++ ending) = false ∧ closesBlock (text ++ ending) = false := by
  have hlast : (text ++ ending).toList.getLast? = some ';' := by
    rw [String.toList_append, List.getLast?_append, h, Option.some_or]
  constructor
  · rw [opensBlock, hlast]
    rfl
  · rw [closesBlock, Bool.or_eq_false_iff, beq_eq_false_iff_ne, beq_eq_false_iff_ne]
    constructor
    all_goals
      intro heq
      rw [heq] at hlast
      cases hlast

/-- A comment neither opens nor closes a block. -/
theorem not_block_comment {text : String} (h : text.toList.head? = some '/') :
    opensBlock text = false ∧ closesBlock text = false := by
  refine ⟨by simp [opensBlock, h], closesBlock_eq_false ?_⟩
  rw [h]
  decide

/-- A header opens a block and closes none. -/
theorem opens_header {text : String} (h : startsPlain text = true) :
    opensBlock (text ++ " \x7b") = true ∧ closesBlock (text ++ " \x7b") = false := by
  have hstart := startsPlain_append h " \x7b"
  unfold startsPlain at hstart
  rw [Option.any_eq_true] at hstart
  obtain ⟨c, hhead, hc⟩ := hstart
  rw [Bool.and_eq_true, bne_iff_ne, bne_iff_ne] at hc
  constructor
  · rw [opensBlock, hhead]
    simp [hc.1]
  · apply closesBlock_eq_false
    rw [hhead]
    simp [hc.2]

/-- The name of a type starts with a letter. -/
theorem startsPlain_typeName (ty : Ty) : startsPlain (typeName ty) = true := by
  induction ty with
  | array item size ih =>
    rw [typeName]
    exact startsPlain_append (startsPlain_append (startsPlain_append ih _) _) _
  | _ => decide

/-- The header of a function starts with its type. -/
theorem startsPlain_header (func : Func) : startsPlain (header func) = true := by
  have hresult : startsPlain ((func.result.map typeName).getD "void") = true := by
    cases func.result with
    | none => decide
    | some ty => exact startsPlain_typeName ty
  exact startsPlain_append (startsPlain_append hresult _) _

/-- The header of a loop starts with a letter. -/
theorem startsPlain_loopHeader (counter : String) :
    startsPlain (Page.loopHeader counter) = true := by
  unfold Page.loopHeader
  simp only [String.append_assoc]
  exact startsPlain_append (by decide) _

/-! ## Nested blocks -/

/-- Lines that are whole statements at some depth: lines without blocks, and blocks one level
deeper, each with the lines that open and close it. -/
inductive Nested : Nat → List Line → Prop where
  | nil {depth : Nat} : Nested depth []
  | line {depth : Nat} {text : String}
      (htext : opensBlock text = false ∧ closesBlock text = false) : Nested depth [⟨depth, text⟩]
  | append {depth : Nat} {first second : List Line} (hfirst : Nested depth first)
      (hsecond : Nested depth second) : Nested depth (first ++ second)
  | block {depth : Nat} {opening : String} {body : List Line}
      (hopening : opensBlock opening = true ∧ closesBlock opening = false)
      (hbody : Nested (depth + 1) body) : Nested depth (enclosed depth opening body)
  | branch {depth : Nat} {opening : String} {first second : List Line}
      (hopening : opensBlock opening = true ∧ closesBlock opening = false)
      (hfirst : Nested (depth + 1) first) (hsecond : Nested (depth + 1) second) :
      Nested depth (enclosed depth opening (first ++ ⟨depth, "\x7d else \x7b"⟩ :: second))

mutual

/-- The lines of a statement are nested. -/
theorem stmtLines_nested (depth : Nat) (e : Expr) : Gives (Nested depth) (stmtLines depth e) := by
  cases e with
  | branch cond yes no =>
    rw [stmtLines]
    refine Gives.skip fun text => (blockLines_nested (depth + 1) yes).bind fun first hfirst => ?_
    have hstart : startsPlain "if (" = true := by decide
    have hopening := opens_header (startsPlain_append (startsPlain_append hstart text) ")")
    split
    · exact .ok (.block hopening hfirst)
    · exact (blockLines_nested (depth + 1) no).bind fun second hsecond =>
        .ok (.branch hopening hfirst hsecond)
  | loop bound counter body =>
    rw [stmtLines]
    refine (blockLines_nested (depth + 1) body).bind fun lines hlines => Gives.skip fun text => ?_
    exact .ok (.block (opens_header (startsPlain_loopHeader _))
      (.append hlines (.line (not_block_terminated _ rfl))))
  | scope body =>
    rw [stmtLines]
    exact (blockLines_nested (depth + 1) body).bind fun lines hlines =>
      .ok (.block (by decide) hlines)
  | lineComment text | blockComment text =>
    rw [stmtLines]
    exact .ok (.line (not_block_comment (by simp)))
  | done =>
    rw [stmtLines]
    exact .ok .nil
  | _ =>
    simp only [stmtLines, Expr.form]
    exact Gives.skip fun text => .ok (.line (not_block_terminated _ rfl))

/-- The lines of a block are nested. -/
theorem blockLines_nested (depth : Nat) (es : List Expr) :
    Gives (Nested depth) (blockLines depth es) := by
  cases es with
  | nil => exact .ok .nil
  | cons e es =>
    rw [blockLines]
    exact (stmtLines_nested depth e).bind fun first hfirst =>
      (blockLines_nested depth es).bind fun second hsecond => .ok (.append hfirst hsecond)

end

/-- The lines of functions are nested. -/
theorem functionsLines_nested (functions : List Func) :
    Gives (Nested 0) (functionsLines functions) := by
  induction functions with
  | nil => exact .ok .nil
  | cons func rest ih =>
    have hfunc : Gives (Nested 0) (functionLines func) := by
      unfold functionLines
      cases func.body? with
      | none => exact .ok .nil
      | some body =>
        exact (blockLines_nested 1 body).bind fun lines hlines =>
          .ok (.append (.block (opens_header (startsPlain_header func)) hlines) (.line (by decide)))
    rw [functionsLines]
    exact hfunc.bind fun first hfirst => ih.bind fun second hsecond => .ok (.append hfirst hsecond)

/-- The lines that a stage starts with are nested: there are no blocks among them. -/
theorem frontLines_nested (globals : List Global) : Nested 0 (frontLines globals) := by
  have hglobals : Nested 0 (globals.map (⟨0, globalLine ·⟩)) := by
    induction globals with
    | nil => exact .nil
    | cons global rest ih => exact .append (.line (not_block_terminated _ rfl)) ih
  have hpreamble : Nested 0 [⟨0, "precision highp float;"⟩, ⟨0, "precision highp int;"⟩, ⟨0, ""⟩] :=
    .append (.line (by decide)) (.append (.line (by decide)) (.line (by decide)))
  refine .append (.append hpreamble hglobals) ?_
  split
  · exact .nil
  · exact .line (by decide)

/-- The lines of a stage are nested. -/
theorem stageLines_nested (globals : List Global) (functions : List Func) (shader : Shader) :
    Gives (Nested 0) (stageLines globals functions shader) := by
  unfold stageLines
  exact (functionsLines_nested functions).bind fun funcs hfuncs =>
    (blockLines_nested 1 shader.body).bind fun body hbody =>
      .ok (.append (.append (frontLines_nested globals) hfuncs) (.block (by decide) hbody))

/-! ## Depth and balance -/

/-- No line of nested blocks stands further out than the blocks. -/
theorem Nested.depth_le {depth : Nat} {lines : List Line} (h : Nested depth lines) :
    ∀ line ∈ lines, depth ≤ line.depth := by
  induction h with
  | nil => simp
  | line => simp
  | append _ _ hfirst hsecond => exact List.forall_mem_append.mpr ⟨hfirst, hsecond⟩
  | block _ _ hbody =>
    simp only [enclosed, List.mem_cons, List.mem_append]
    grind
  | branch _ _ _ hfirst hsecond =>
    simp only [enclosed, List.mem_cons, List.mem_append]
    grind

/-- Lines lead from one depth to another: each closes a block or not before it is written, and opens
one or not after it. -/
def Tracks : Nat → List Line → Nat → Prop
  | depth, [], final => depth = final
  | depth, line :: lines, final =>
    line.depth + (if closesBlock line.text then 1 else 0) = depth ∧
      Tracks (line.depth + if opensBlock line.text then 1 else 0) lines final

namespace Tracks

variable {depth middle final : Nat} {lines first second : List Line}

/-- Where nothing is written the depth stays. -/
theorem nil : Tracks depth [] depth := by
  rw [Tracks]

/-- A line leads from the depth before it to the one after it. -/
theorem line {text : String} (closes opens : Bool) (hcloses : closesBlock text = closes)
    (hopens : opensBlock text = opens) :
    Tracks (depth + if closes then 1 else 0) [⟨depth, text⟩] (depth + if opens then 1 else 0) := by
  subst hcloses hopens
  exact ⟨rfl, nil⟩

/-- Lines lead on from where the lines before them lead to. -/
theorem append (hfirst : Tracks depth first middle) (hsecond : Tracks middle second final) :
    Tracks depth (first ++ second) final := by
  induction first generalizing depth with
  | nil =>
    cases hfirst
    exact hsecond
  | cons line lines ih => exact ⟨hfirst.1, ih hfirst.2⟩

/-- A block leads back to where it starts. -/
theorem enclosed {opening : String}
    (hopening : opensBlock opening = true ∧ closesBlock opening = false)
    (hbody : Tracks (depth + 1) lines (depth + 1)) :
    Tracks depth (enclosed depth opening lines) depth := by
  have hopen : Tracks depth [⟨depth, opening⟩] (depth + 1) := line false true hopening.2 hopening.1
  have hclose : Tracks (depth + 1) [⟨depth, "\x7d"⟩] depth :=
    line true false (by decide) (by decide)
  exact hopen.append (hbody.append hclose)

/-- The depth changes by the blocks that are opened and closed. -/
theorem add_countP (h : Tracks depth lines final) :
    final + lines.countP (closesBlock ·.text) = depth + lines.countP (opensBlock ·.text) := by
  induction lines generalizing depth with
  | nil =>
    cases h
    rfl
  | cons line lines ih =>
    have hline := h.1
    have hrest := ih h.2
    rw [List.countP_cons, List.countP_cons]
    omega

/-- The part of tracked lines before one of them leads to where it closes a block or not. -/
theorem of_append {line : Line} {after : List Line}
    (h : Tracks depth (first ++ line :: after) final) :
    Tracks depth first (line.depth + if closesBlock line.text then 1 else 0) := by
  induction first generalizing depth with
  | nil => exact h.1.symm
  | cons line lines ih => exact ⟨h.1, ih h.2⟩

end Tracks

/-- Nested blocks lead back to where they start. -/
theorem Nested.tracks {depth : Nat} {lines : List Line} (h : Nested depth lines) :
    Tracks depth lines depth := by
  induction h with
  | nil => exact .nil
  | line htext => exact .line false false htext.2 htext.1
  | append _ _ hfirst hsecond => exact hfirst.append hsecond
  | block hopening _ hbody => exact hbody.enclosed hopening
  | @branch depth _ _ _ hopening _ _ hfirst hsecond =>
    -- The line between the blocks closes the first one before it opens the second one.
    have hbetween : Tracks (depth + 1) [⟨depth, "\x7d else \x7b"⟩] (depth + 1) :=
      .line true true (by decide) (by decide)
    exact .enclosed hopening (hfirst.append (hbetween.append hsecond))

/-- Every block that is opened is closed, and each line is as deep as there are blocks open around
it, so that none is closed before it is opened. -/
structure Balanced (lines : List Line) : Prop where
  total : lines.countP (opensBlock ·.text) = lines.countP (closesBlock ·.text)
  depth : ∀ before line after, lines = before ++ line :: after →
    line.depth + (before ++ [line]).countP (closesBlock ·.text) =
      before.countP (opensBlock ·.text)

/-- Nested blocks that start at the margin are balanced. -/
theorem Nested.balanced {lines : List Line} (h : Nested 0 lines) : Balanced lines where
  total := by
    have hcount := h.tracks.add_countP
    omega
  depth := by
    rintro before line after rfl
    have hcount := h.tracks.of_append.add_countP
    rw [List.countP_append, List.countP_singleton]
    omega

/-! ## Emitted lines -/

/-- The rendered lines of a stage end with the end of `main`. -/
theorem getLast?_stageLines (globals : List Global) (functions : List Func) (shader : Shader) :
    Gives (fun lines => lines.getLast? = some ⟨0, "\x7d"⟩)
      (stageLines globals functions shader) := by
  unfold stageLines
  refine Gives.skip fun funcs => Gives.skip fun body => .ok ?_
  rw [enclosed, ← List.cons_append, List.getLast?_append, List.getLast?_concat, Option.some_or]

/-- Writing onto a page is structural.  A page of any depth takes a block exactly if the block can
be rendered at this depth; it then has the rendered lines after its own ones, and its depth again.  No
rendered line stands further out than the block.  The page of a stage has the rendered lines of the
stage; its blocks are balanced, and it ends at the margin with the end of `main`. -/
theorem emission_eq_rendering :
    (∀ (page : Page) (es : List Expr) (written : Page), page.block es = .ok written ↔
      ∃ lines, blockLines page.depth es = .ok lines ∧
        written = ⟨page.lines ++ lines.toArray, page.depth⟩) ∧
    (∀ (depth : Nat) (es : List Expr) (lines : List Line), blockLines depth es = .ok lines →
      ∀ line ∈ lines, depth ≤ line.depth) ∧
    ∀ (globals : List Global) (functions : List Func) (shader : Shader) (page : Page),
      stagePage globals functions shader = .ok page →
        stageLines globals functions shader = .ok page.lines.toList ∧ page.depth = 0 ∧
          Balanced page.lines.toList ∧ page.lines.toList.getLast? = some ⟨0, "\x7d"⟩ := by
  refine ⟨fun page es written => ?_, fun depth es lines hlines => ?_,
    fun globals functions shader page hpage => ?_⟩
  · rw [Page.block_eq_map]
    refine map_eq_ok.trans (exists_congr fun lines => and_congr_right fun _ => ?_)
    exact eq_comm
  · exact (blockLines_nested depth es lines hlines).depth_le
  · rw [stagePage_eq_map] at hpage
    obtain ⟨lines, hlines, rfl⟩ := map_eq_ok.mp hpage
    have hwritten : (Page.blank.extend lines).lines.toList = lines := by
      simp [Page.extend, Page.blank]
    rw [hwritten]
    exact ⟨hlines, rfl, (stageLines_nested globals functions shader lines hlines).balanced,
      getLast?_stageLines globals functions shader lines hlines⟩

/-- A loop around a branch with two blocks, the second of which holds a scope. -/
def nestedBlocks : List Expr :=
  [.loop (.ref "n") none
    [.branch (.ref "c") [.update "x" (.ref "y"), .done]
      [.scope [.lineComment " \x7b", .done], .done], .done], .done]

/-- Nested blocks are written onto an indented page, and a stage with them is balanced. -/
theorem emission_nestedBlocks :
    (∃ lines, blockLines 2 nestedBlocks = .ok lines ∧ lines.length = 10 ∧
      ∀ line ∈ lines, 2 ≤ line.depth) ∧
    ∃ page, stagePage [⟨.uniform, .int, "n"⟩] [] ⟨.fragment, [], [], nestedBlocks⟩ = .ok page ∧
      page.depth = 0 ∧ Balanced page.lines.toList := by
  have hlines : ∃ lines, blockLines 2 nestedBlocks = .ok lines ∧ lines.length = 10 := ⟨_, rfl, rfl⟩
  have hpage : ∃ page, stagePage [⟨.uniform, .int, "n"⟩] [] ⟨.fragment, [], [], nestedBlocks⟩ =
    .ok page := ⟨_, rfl⟩
  obtain ⟨lines, hlines, hlength⟩ := hlines
  obtain ⟨page, hpage⟩ := hpage
  obtain ⟨-, hdepth, hbalanced, -⟩ := emission_eq_rendering.2.2 _ _ _ page hpage
  exact ⟨⟨lines, hlines, hlength, emission_eq_rendering.2.1 _ _ lines hlines⟩,
    page, hpage, hdepth, hbalanced⟩

end Target

end ShaderLang
