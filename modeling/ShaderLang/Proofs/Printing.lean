import ShaderLang.Proofs.Remarks
import ShaderLang.Proofs.Slashes

/-!
# Comments of generated code

A comment is written on a line of its own, and no comment starts on any other line.  If each comment
ends where its text does, the comments of the generated text are exactly those of the trees, in
order.

Main results:

- Theorem `Holds.exists_cut`: lines that hold comments are cut at these comments.
- Theorem `block_adds`: statements add lines that hold their comments.
- Theorem `comments_of_load`: where the comments of a loaded source come from and how they are
  written.
-/

namespace ShaderLang

namespace Piece

instance : DecidablePred IsComment := fun piece =>
  match piece with
  | code _ => inferInstanceAs (Decidable False)
  | line _ | block _ => inferInstanceAs (Decidable True)

/-- The comments of a text are given ones, and each of them ends. -/
def Comprises (text : String) (comments : List Piece) : Prop :=
  ∃ pieces, split 0 text.toList = .ok pieces ∧ pieces.filter IsComment = comments

end Piece

namespace Target

open ShaderLang.Expr

/-! ## Lines -/

/-- Lines hold comments: each comment is a line, and a blank stands after each slash of the other
lines. -/
inductive Holds : List Line → List Piece → Prop where
  | nil : Holds [] []
  | code {line : Line} {lines : List Line} {comments : List Piece} (hquiet : Quiet line.text)
      (hrest : Holds lines comments) : Holds (line :: lines) comments
  | comment {line : Line} {lines : List Line} {comment : Piece} {comments : List Piece}
      (htext : line.text.toList = comment.source) (hclosed : comment.IsClosed)
      (hrest : Holds lines comments) : Holds (line :: lines) (comment :: comments)

variable {lines more : List Line} {comments others : List Piece}

theorem Holds.append (h : Holds lines comments) (hmore : Holds more others) :
    Holds (lines ++ more) (comments ++ others) := by
  induction h with
  | nil => exact hmore
  | code hquiet _ ih => exact .code hquiet ih
  | comment htext hclosed _ ih => exact .comment htext hclosed ih

/-- The blanks at the start of a line. -/
def Line.margin (line : Line) : List Char :=
  List.replicate (4 * line.depth) ' '

theorem Line.toList_render (line : Line) :
    line.render.toList = line.margin ++ line.text.toList ++ ['\n'] := by
  simp [render, margin]

theorem Line.isQuiet_margin (line : Line) : isQuiet line.margin = true := by
  apply isQuiet_of_not_mem
  simp [margin]

/-- Code and lines that hold comments are cut at these comments: by induction on the lines, with the
code since the last comment. -/
theorem Holds.exists_cut (h : Holds lines comments) {code : List Char}
    (hcode : isQuiet code = true) :
    ∃ pieces, Piece.Cut pieces ∧
      pieces.flatMap Piece.source = code ++ lines.flatMap (·.render.toList) ∧
      pieces.filter Piece.IsComment = comments := by
  induction h generalizing code with
  | nil =>
    refine ⟨[.code code], .code fun hopens => not_opens_of_isQuiet hcode ?_, by simp, rfl⟩
    exact hopens.imp (·.trans (List.prefix_append code _).isInfix)
      (·.trans (List.prefix_append code _).isInfix)
  | @code line lines comments hquiet _ ih =>
    have hline : isQuiet line.render.toList = true := by
      rw [line.toList_render]
      exact isQuiet_append (isQuiet_append line.isQuiet_margin hquiet) (by decide)
    rcases ih (isQuiet_append hcode hline) with ⟨pieces, hcut, hsource, hfound⟩
    exact ⟨pieces, hcut, by simp [hsource], hfound⟩
  | @comment line lines comment comments htext hclosed _ ih =>
    have hbefore := not_opens_of_isQuiet (isQuiet_append hcode line.isQuiet_margin)
    -- The end of the line is the first code after the comment.
    rcases ih (by decide : isQuiet ['\n'] = true) with ⟨pieces, hcut, hsource, hfound⟩
    have hwhole : (.code (code ++ line.margin) :: comment :: pieces).flatMap Piece.source =
        code ++ (line :: lines).flatMap (·.render.toList) := by
      simp [hsource, line.toList_render, htext]
    cases comment with
    | code text => exact hclosed.elim
    | line text =>
      have hend : ∀ c ∈ (pieces.flatMap Piece.source).head?, c = '\n' := by simp [hsource]
      exact ⟨_, .line hbefore hclosed hend hcut, hwhole, congrArg (_ :: ·) hfound⟩
    | block text =>
      exact ⟨_, .block hbefore hclosed hcut, hwhole, congrArg (_ :: ·) hfound⟩

/-- The comments of a page are those that its lines hold. -/
theorem Page.comprises_text {page : Page} (h : Holds page.lines.toList comments) :
    Piece.Comprises page.text comments := by
  rcases h.exists_cut (by rfl : isQuiet [] = true) with ⟨pieces, hcut, hsource, hfound⟩
  have htext : page.text.toList = page.lines.toList.flatMap (·.render.toList) := by
    simp [Page.text, String.toList_join, List.flatMap_map]
  exact ⟨pieces, Piece.split_eq_ok_iff.mpr ⟨hcut, by rw [hsource, htext, List.nil_append]⟩, hfound⟩

/-! ## Pages -/

/-- The lines that are added to a page hold some comments. -/
def Page.Adds (page page' : Page) (comments : List Piece) : Prop :=
  ∃ lines, page'.lines.toList = page.lines.toList ++ lines ∧ Holds lines comments

namespace Page

variable {page page' page'' : Page} {text : String} {allowed : Vocabulary}

theorem adds_self (page : Page) : page.Adds page [] :=
  ⟨[], (List.append_nil _).symm, .nil⟩

theorem Adds.trans (h : page.Adds page' comments) (h' : page'.Adds page'' others) :
    page.Adds page'' (comments ++ others) := by
  rcases h with ⟨lines, hlines, hholds⟩
  rcases h' with ⟨more, hmore, hholds'⟩
  exact ⟨lines ++ more, by rw [hmore, hlines, List.append_assoc], hholds.append hholds'⟩

/-- One more line that is not a comment. -/
theorem Adds.push (h : page.Adds page' comments) {line : Line} (hquiet : Quiet line.text)
    (hlines : page''.lines = page'.lines.push line) : page.Adds page'' comments := by
  have hline : page'.Adds page'' [] := ⟨[line], by simp [hlines], .code hquiet .nil⟩
  simpa using h.trans hline

theorem Adds.line (h : page.Adds page' comments) (hquiet : Quiet text) :
    page.Adds (page'.line text) comments :=
  h.push hquiet (page'.lines_line text)

theorem Adds.skip (h : page.Adds page' comments) : page.Adds page'.skip comments :=
  h.push (by decide) page'.lines_skip

theorem Adds.openBlock (h : page.Adds page' comments) (hquiet : Quiet text) :
    page.Adds (page'.openBlock text) comments :=
  h.push (hquiet.append (by decide)) rfl

theorem Adds.closeBlock (h : page.Adds page' comments) : page.Adds page'.closeBlock comments :=
  h.push (show Quiet "\x7d" by decide) rfl

/-- The second block of a branch is opened where the first is closed. -/
theorem Adds.elseBlock (h : page.Adds page' comments) :
    page.Adds (page'.outdent.line "\x7d else \x7b").indent comments :=
  h.push (show Quiet "\x7d else \x7b" by decide) rfl

/-- A comment is a line of its own. -/
theorem adds_comment {comment : Piece} (htext : text.toList = comment.source)
    (hclosed : comment.IsClosed) : page.Adds (page.line text) [comment] :=
  ⟨[⟨page.depth, text⟩], by simp, .comment htext hclosed .nil⟩

theorem loopHeader_quiet {counter : String} (h : Quiet counter) : Quiet (loopHeader counter) :=
  ((((((((by decide : Quiet "for (int ").append h).append (by decide)).append h).append
    (by decide)).append (by decide)).append (by decide)).append h).append (by decide)

mutual

/-- A statement adds lines that hold its comments. -/
theorem stmt_adds (hslashless : allowed.IsSlashless) (page : Page) (e : Expr)
    (h : e.IsStmt allowed) (hclosed : ∀ comment ∈ e.remarks, comment.IsClosed) :
    Gives (page.Adds · e.remarks) (page.stmt e) := by
  cases e with
  | branch cond yes no =>
    rcases h with ⟨hcond, hyes, hno, hsealed⟩
    rw [remarks, hcond.remarks_eq_nil, List.nil_append] at hclosed ⊢
    rw [stmt]
    refine Gives.bind (value_quiet hslashless cond hcond) fun text htext => ?_
    have hopen := page.adds_self.openBlock
      (((by decide : Quiet "if (").append htext).append (by decide : Quiet ")"))
    have hfirst := block_adds hslashless (page.openBlock ("if (" ++ text ++ ")")) yes hyes
      fun comment hmem => hclosed comment (List.mem_append_left _ hmem)
    refine Gives.bind hfirst fun page' hpage' => ?_
    have hthen := hopen.trans hpage'
    cases hnone : Block.hasNone no with
    | true =>
      have hempty : remarksEach no = [] := by rw [hsealed.eq_done hnone]; rfl
      rw [hempty, List.append_nil]
      exact Gives.ok hthen.closeBlock
    | false =>
      have hsecond := block_adds hslashless (page'.outdent.line "\x7d else \x7b").indent no hno
        fun comment hmem => hclosed comment (List.mem_append_right _ hmem)
      exact Gives.bind hsecond fun page'' hpage'' =>
        Gives.ok (hthen.elseBlock.trans hpage'').closeBlock
  | loop bound counter body =>
    rcases h with ⟨hbound, hcounter, hbody⟩
    rw [remarks, hbound.remarks_eq_nil, List.nil_append] at hclosed ⊢
    rw [stmt]
    have hname : Quiet (counter.getD Word.counter) := by
      cases counter with
      | none => decide
      | some name => exact quiet_of_not_mem (hslashless.name (hcounter name rfl))
    have hopen := page.adds_self.openBlock (loopHeader_quiet hname)
    refine Gives.bind (block_adds hslashless _ body hbody hclosed) fun page' hpage' => ?_
    refine Gives.bind (value_quiet hslashless bound hbound) fun text htext => Gives.ok ?_
    exact ((hopen.trans hpage').line (((((by decide : Quiet "if (").append hname).append
      (by decide)).append htext).append (by decide))).closeBlock
  | scope body =>
    rw [stmt]
    have hopen := page.adds_self.line (by decide : Quiet "\x7b")
    exact Gives.bind (block_adds hslashless (page.line "\x7b").indent body h hclosed)
      fun page' hpage' => Gives.ok (hopen.trans hpage').closeBlock
  | lineComment text =>
    rw [stmt]
    exact Gives.ok (adds_comment (by simp [Piece.source]) (hclosed _ (by simp [remarks])))
  | blockComment text =>
    rw [stmt]
    exact Gives.ok (adds_comment (by simp [Piece.source]) (hclosed _ (by simp [remarks])))
  | done =>
    rw [stmt]
    exact Gives.ok page.adds_self
  | mutable | constant | update | output =>
    rw [remarks, h.2.remarks_eq_nil]
    exact Gives.bind (effect_quiet hslashless h) fun text htext =>
      Gives.ok (page.adds_self.line (htext.append (by decide)))
  | uninit =>
    exact Gives.bind (effect_quiet hslashless h) fun text htext =>
      Gives.ok (page.adds_self.line (htext.append (by decide)))
  | call name args =>
    rw [IsValue.remarks_eq_nil h]
    exact Gives.bind (effect_quiet hslashless h) fun text htext =>
      Gives.ok (page.adds_self.line (htext.append (by decide)))
  | int | bool | float | double | vec2 | vec3 | vec4 | mat4 | ref | binary | field | index
  | array =>
    rw [IsValue.remarks_eq_nil h]
    exact Gives.bind (value_quiet hslashless _ h) fun text htext =>
      Gives.ok (page.adds_self.line
        (((by decide : Quiet "return ").append htext).append (by decide)))

/-- Statements add lines that hold their comments. -/
theorem block_adds (hslashless : allowed.IsSlashless) (page : Page) (es : List Expr)
    (h : AreStmts allowed es) (hclosed : ∀ comment ∈ remarksEach es, comment.IsClosed) :
    Gives (page.Adds · (remarksEach es)) (page.block es) := by
  cases es with
  | nil => exact Gives.ok page.adds_self
  | cons e es =>
    rw [block]
    have hfirst := stmt_adds hslashless page e h.1
      fun comment hmem => hclosed comment (List.mem_append_left _ hmem)
    refine Gives.bind hfirst fun page' hpage' => ?_
    intro page'' hblock
    exact hpage'.trans (block_adds hslashless page' es h.2
      (fun comment hmem => hclosed comment (List.mem_append_right _ hmem)) page'' hblock)

end

/-! ## Stages and programs -/

/-- The declarations of global variables hold no comments. -/
theorem globals_adds {globals : List Global} (h : ∀ global ∈ globals, '/' ∉ global.name.toList)
    (page : Page) : page.Adds (page.globals globals) [] := by
  have hlines : ∀ page', page.Adds page' [] →
      page.Adds (globals.foldl (fun page global => page.line (globalLine global)) page') [] := by
    induction globals with
    | nil => exact fun _ hpage' => hpage'
    | cons global rest ih =>
      rw [List.forall_mem_cons] at h
      exact fun page' hpage' => ih h.2 _ (hpage'.line (globalLine_quiet h.1))
  have hwritten := hlines page page.adds_self
  unfold Page.globals
  dsimp only
  split
  · exact hwritten
  · exact hwritten.skip

/-- A function adds lines that hold the comments of its body. -/
theorem function_adds (hslashless : allowed.IsSlashless) {func : Func}
    (h : func.IsPlaced allowed) (hclosed : ∀ comment ∈ func.remarks, comment.IsClosed)
    (page : Page) : Gives (page.Adds · func.remarks) (page.function func) := by
  have hheader := header_quiet (hslashless.name h.name) fun param hparam =>
    hslashless.name (h.params param hparam)
  have hbody := h.body
  unfold Func.remarks at hclosed ⊢
  unfold Page.function
  cases hfound : func.body? with
  | none => exact Gives.ok page.adds_self
  | some body =>
    simp only [hfound, Option.toList_some, List.flatMap_singleton] at hclosed ⊢
    have hopen := page.adds_self.openBlock hheader
    have hwritten := block_adds hslashless.linked (page.openBlock (header func)) body
      (hbody body hfound) hclosed
    exact Gives.bind hwritten fun page' hpage' => Gives.ok (hopen.trans hpage').closeBlock.skip

/-- Functions add lines that hold the comments of their bodies, one function after the other. -/
theorem functions_adds (hslashless : allowed.IsSlashless) {functions : List Func}
    (h : ∀ func ∈ functions, func.IsPlaced allowed)
    (hclosed : ∀ comment ∈ functions.flatMap Func.remarks, comment.IsClosed) (page : Page) :
    Gives (page.Adds · (functions.flatMap Func.remarks)) (page.functions functions) := by
  induction functions generalizing page with
  | nil => exact Gives.ok page.adds_self
  | cons func rest ih =>
    rw [List.forall_mem_cons] at h
    rw [List.flatMap_cons, List.forall_mem_append] at hclosed
    rw [Page.functions]
    refine Gives.bind (function_adds hslashless h.1 hclosed.1 page) fun page' hpage' => ?_
    intro page'' hrest
    exact hpage'.trans (ih h.2 hclosed.2 page' page'' hrest)

end Page

variable {allowed : Vocabulary} {functions : List Func} {shader : Shader}

/-- The comments of a stage are those of the functions and then those of the shader. -/
theorem stage_comprises (hslashless : allowed.IsSlashless) {globals : List Global}
    (hglobals : ∀ global ∈ globals, '/' ∉ global.name.toList)
    (hfunctions : ∀ func ∈ functions, func.IsPlaced allowed) (hshader : shader.IsPlaced allowed)
    (hclosed : ∀ comment ∈ functions.flatMap Func.remarks ++ shader.remarks, comment.IsClosed) :
    Gives (Piece.Comprises · (functions.flatMap Func.remarks ++ shader.remarks))
      (stage globals functions shader) := by
  rw [List.forall_mem_append] at hclosed
  intro text htext
  rcases map_eq_ok.mp htext with ⟨page, hpage, rfl⟩
  rcases bind_eq_ok.mp hpage with ⟨declared, hdeclared, hpage⟩
  rcases bind_eq_ok.mp hpage with ⟨written, hwritten, hpage⟩
  cases hpage
  have hpreamble : Page.blank.Adds Page.blank.preamble [] :=
    ((Page.blank.adds_self.line (by decide)).line (by decide)).skip
  have hstart := hpreamble.trans (Page.globals_adds hglobals Page.blank.preamble)
  have hmiddle := hstart.trans
    (Page.functions_adds hslashless hfunctions hclosed.1 _ declared hdeclared)
  have hmain := hmiddle.openBlock (by decide : Quiet "void main()")
  have hbody :=
    Page.block_adds hslashless.linked _ shader.body hshader.body hclosed.2 written hwritten
  rcases (hmain.trans hbody).closeBlock with ⟨lines, hlines, hholds⟩
  have hall : written.closeBlock.lines.toList = lines := hlines
  exact Page.comprises_text (hall ▸ hholds)

/-- The comments of the two texts of a program. -/
theorem program_comprises (hslashless : allowed.IsSlashless) {program : Program} {text : ProgramText}
    (hfunctions : ∀ func ∈ functions, func.IsPlaced allowed) (hprogram : program.IsPlaced allowed)
    (hclosed : ∀ comment ∈ functions.flatMap Func.remarks ++
      (program.vertex.remarks ++ program.fragment.remarks), comment.IsClosed)
    (htext : Target.program functions program = .ok text) :
    Piece.Comprises text.vertex (functions.flatMap Func.remarks ++ program.vertex.remarks) ∧
      Piece.Comprises text.fragment (functions.flatMap Func.remarks ++ program.fragment.remarks) := by
  simp only [List.forall_mem_append] at hclosed
  rcases hclosed with ⟨hfirst, hvertex, hfragment⟩
  rcases bind_eq_ok.mp htext with ⟨vertex, hvertexText, htext⟩
  rcases bind_eq_ok.mp htext with ⟨fragment, hfragmentText, htext⟩
  cases htext
  have huniforms : ∀ global ∈ program.uniforms ++ program.attributes, '/' ∉ global.name.toList :=
    fun global hmem => hslashless.name (hprogram.globals global hmem)
  have hnames : ∀ {globals : List Global}, (∀ x ∈ globals.map (·.name), allowed.name x) →
      ∀ global ∈ globals, '/' ∉ global.name.toList :=
    fun h global hmem => hslashless.name (h global.name (List.mem_map_of_mem hmem))
  have hinputs := hnames hprogram.fragment.inputs
  have hpassed := hnames hprogram.vertex.outputs
  have houtputs := hnames hprogram.fragment.outputs
  constructor
  · refine stage_comprises hslashless ?_ hfunctions hprogram.vertex ?_ vertex hvertexText
    · exact List.forall_mem_append.mpr ⟨huniforms, hpassed⟩
    · exact List.forall_mem_append.mpr ⟨hfirst, hvertex⟩
  · refine stage_comprises hslashless ?_ hfunctions hprogram.fragment ?_ fragment hfragmentText
    · have hshared := (List.forall_mem_append.mp huniforms).1
      exact List.forall_mem_append.mpr ⟨List.forall_mem_append.mpr ⟨hshared, hinputs⟩, houtputs⟩
    · exact List.forall_mem_append.mpr ⟨hfirst, hfragment⟩

end Target

/-! ## Sources -/

/-- No slash stands in the vocabulary without slashes. -/
theorem Vocabulary.isSlashless_slashless : slashless.IsSlashless :=
  ⟨fun h => h, fun h => h⟩

/-- Comments do not leak into generated code.  If no quotes stand in the code of a source, the
comments of what is loaded are comments of the source without their carriage returns; line comments
are closed, and block comments are unless carriage returns keep a star and a slash apart in the
source.  If all comments are closed, those of the generated texts are exactly the comments of the
functions followed by those of the shader. -/
theorem comments_of_load {diagnostics : List Diagnostic} {source : List Char} {m : Module}
    (hload : (load diagnostics source).module = some m) :
    (∀ pieces, Piece.split 0 source = .ok pieces → Lexeme.Unquoted pieces →
      m.remarks ⊆ pieces.filterMap Piece.remark? ∧
      ∀ comment ∈ m.remarks, ¬ comment.IsClosed → ∃ text, .block text ∈ pieces ∧
        comment = .block (text.filter (· != '\r')) ∧
        ['*', '/'] <:+: text.filter (· != '\r') ∧ ¬ ['*', '/'] <:+: text) ∧
    ((∀ comment ∈ m.remarks, comment.IsClosed) →
      ∀ entry ∈ m.programs, ∀ text, Target.program m.functions entry.2 = .ok text →
        Piece.Comprises text.vertex
          (m.functions.flatMap Func.remarks ++ entry.2.vertex.remarks) ∧
        Piece.Comprises text.fragment
          (m.functions.flatMap Func.remarks ++ entry.2.fragment.remarks)) := by
  constructor
  · intro pieces hsplit hquotes
    have hsubset := remarks_subset_of_load hload hsplit hquotes
    refine ⟨hsubset, fun comment hmem hopen => ?_⟩
    exact exists_of_not_isClosed hsplit (hsubset hmem) hopen
  · intro hclosed entry hentry text htext
    rcases isPlaced_of_load hload (Vocabulary.suitsSource_slashless source) with
      ⟨hfunctions, hprograms⟩
    refine Target.program_comprises Vocabulary.isSlashless_slashless hfunctions
      (hprograms entry hentry).2 (fun comment hmem => hclosed comment ?_) htext
    rcases List.mem_append.mp hmem with hmem | hmem
    · exact List.mem_append_left _ hmem
    · exact List.mem_append_right _ (List.mem_flatMap.mpr ⟨entry, hentry, hmem⟩)

/-- A source with a carriage return in a block comment of a function, and a line comment in a
shader. -/
def commentedSource : List Char :=
  "f:Int=\x7b/*a\r*/1\x7dvert v:()->()=\x7b//b\n\x7dfrag e:()->()=\x7b\x7dp:Prog=mkProg v e".toList

/-- The code and the comments of that source. -/
def commentedPieces : List Piece :=
  [.code "f:Int=\x7b".toList, .block "a\r".toList, .code "1\x7dvert v:()->()=\x7b".toList,
    .line ['b'], .code "\n\x7dfrag e:()->()=\x7b\x7dp:Prog=mkProg v e".toList]

/-- The comments of that source are those of the text of its vertex stage. -/
theorem comprises_commentedSource :
    Piece.split 0 commentedSource = .ok commentedPieces ∧
      ∃ m entry text, (load [] commentedSource).module = some m ∧ entry ∈ m.programs ∧
        Target.program m.functions entry.2 = .ok text ∧
        m.remarks ⊆ [.block ['a'], .line ['b']] ∧
        Piece.Comprises text.vertex [.block ['a'], .line ['b']] ∧
        Piece.Comprises text.fragment [.block ['a']] := by
  have hsplit : Piece.split 0 commentedSource = .ok commentedPieces := by
    decide +kernel
  have hquotes : Lexeme.Unquoted commentedPieces := by
    intro code hcode
    simp only [commentedPieces, List.mem_cons, Piece.code.injEq, reduceCtorEq, false_or,
      List.not_mem_nil, or_false] at hcode
    rcases hcode with rfl | rfl | rfl <;> decide
  have hevaluated : ((load [] commentedSource).module.any fun m =>
      m.functions.flatMap Func.remarks == [.block ['a']] && m.programs.any fun entry =>
        (Target.program m.functions entry.2).isOk && entry.2.vertex.remarks == [.line ['b']] &&
          entry.2.fragment.remarks == []) = true := by
    decide +kernel
  refine ⟨hsplit, ?_⟩
  rcases (Option.any_eq_true _ _).mp hevaluated with ⟨m, hload, hm⟩
  rw [Bool.and_eq_true, beq_iff_eq, List.any_eq_true] at hm
  rcases hm with ⟨hfunctions, entry, hentry, hprogram⟩
  simp only [Bool.and_eq_true, beq_iff_eq] at hprogram
  rcases hprogram with ⟨⟨hok, hvertex⟩, hfragment⟩
  cases htext : Target.program m.functions entry.2 with
  | error refusal =>
    rw [htext] at hok
    cases hok
  | ok text =>
    rcases comments_of_load hload with ⟨hsource, hwritten⟩
    rcases hsource commentedPieces hsplit hquotes with ⟨hsubset, -⟩
    have hremarks : m.remarks ⊆ [.block ['a'], .line ['b']] := hsubset
    have hclosed : ∀ comment ∈ m.remarks, comment.IsClosed := by
      intro comment hmem
      rcases List.mem_cons.mp (hremarks hmem) with rfl | hmem
      · exact (by decide : ¬ ['*', '/'] <:+: ['a'])
      · rw [List.mem_singleton.mp hmem]
        exact (by decide : '\n' ∉ ['b'])
    rcases hwritten hclosed entry hentry text htext with ⟨hfirst, hsecond⟩
    rw [hfunctions, hvertex] at hfirst
    rw [hfunctions, hfragment] at hsecond
    exact ⟨m, entry, text, hload, hentry, htext, hremarks, hfirst, hsecond⟩

/-- Carriage returns that keep a star and a slash apart are left out, and a marker can be spelled in
the code: then a comment is not closed. -/
theorem load_unclosed_comment :
    ((load [] "f:Int=\x7b/*a*\r/b*/1\x7d".toList).module.map Module.remarks) =
        some [.block "a*/b".toList] ∧
      ((load [] "f:Int=\x7b#[block=\"*/\"]1\x7d".toList).module.map Module.remarks) =
        some [.block "*/".toList] ∧
      ¬ (Piece.block "a*/b".toList).IsClosed ∧ ¬ (Piece.block "*/".toList).IsClosed := by
  have hcarriage : ((load [] "f:Int=\x7b/*a*\r/b*/1\x7d".toList).module.map Module.remarks) =
      some [.block "a*/b".toList] := by
    decide +kernel
  have hmarker : ((load [] "f:Int=\x7b#[block=\"*/\"]1\x7d".toList).module.map Module.remarks) =
      some [.block "*/".toList] := by
    decide +kernel
  have hopen : ∀ text : List Char, ['*', '/'] <:+: text → ¬ (Piece.block text).IsClosed :=
    fun text hinfix hclosed => hclosed hinfix
  exact ⟨hcarriage, hmarker, hopen _ (by decide), hopen _ (by decide)⟩

end ShaderLang
