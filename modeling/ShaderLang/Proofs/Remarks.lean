import ShaderLang.Proofs.Masking
import ShaderLang.Proofs.Wording

/-!
# Comments of what is loaded

A comment of a source is a marker among its tokens, and the marker is a statement of a block.  So the
comments in the trees of what a source amounts to are comments of the source without their carriage
returns, if no string stands in its code: a string there could spell a marker of its own.

Main results:

- Theorem `remarksEach_subset`: the comments of statements are those that a vocabulary allows.
- Theorem `Strewn.remarks_subset`: a marker among strewn tokens is one of the comments.
- Theorem `remarks_subset_of_load`: the comments of what is loaded are comments of the source.
-/

namespace ShaderLang

/-! ## Comments of trees -/

/-- A comment ends where its text does: a line comment has no line feed in it, and a block comment
no closing mark. -/
def Piece.IsClosed : Piece → Prop
  | code _ => False
  | line text => '\n' ∉ text
  | block text => ¬ ['*', '/'] <:+: text

namespace Expr

mutual

/-- The comments of a tree, at any depth and in order. -/
def remarks : Expr → List Piece
  | .lineComment text => [.line text.toList]
  | .blockComment text => [.block text.toList]
  | .mutable _ _ value | .constant _ _ value => remarks value
  | .update _ value | .output _ value => remarks value
  | .branch cond yes no => remarks cond ++ (remarksEach yes ++ remarksEach no)
  | .loop bound _ body => remarks bound ++ remarksEach body
  | .scope body => remarksEach body
  | .call _ args => remarksEach args
  | .mat4 items | .array items => remarksEach items
  | .binary _ lhs rhs => remarks lhs ++ remarks rhs
  | .field base _ => remarks base
  | .index base position => remarks base ++ remarks position
  | .vec2 x y => remarks x ++ remarks y
  | .vec3 x y z => remarks x ++ (remarks y ++ remarks z)
  | .vec4 x y z w => remarks x ++ (remarks y ++ (remarks z ++ remarks w))
  | _ => []

/-- The comments of some trees. -/
def remarksEach : List Expr → List Piece
  | [] => []
  | e :: es => remarks e ++ remarksEach es

end

variable {allowed : Vocabulary} {comments : List Piece}

mutual

/-- No comment stands in a value. -/
theorem IsValue.remarks_eq_nil {e : Expr} (h : e.IsValue allowed) : e.remarks = [] := by
  cases e with
  | int | bool | float | double | ref => rfl
  | call name args => exact AreValues.remarksEach_eq_nil h.2
  | field base name => rw [remarks, IsValue.remarks_eq_nil h.1]
  | binary op x y | index x y | vec2 x y =>
    rw [remarks, IsValue.remarks_eq_nil h.1, IsValue.remarks_eq_nil h.2, List.nil_append]
  | vec3 x y z =>
    rw [remarks, IsValue.remarks_eq_nil h.1, IsValue.remarks_eq_nil h.2.1,
      IsValue.remarks_eq_nil h.2.2, List.nil_append, List.nil_append]
  | vec4 x y z w =>
    rw [remarks, IsValue.remarks_eq_nil h.1, IsValue.remarks_eq_nil h.2.1,
      IsValue.remarks_eq_nil h.2.2.1, IsValue.remarks_eq_nil h.2.2.2, List.nil_append,
      List.nil_append, List.nil_append]
  | mat4 items | array items =>
    have hitems : AreValues allowed items := h
    exact AreValues.remarksEach_eq_nil hitems
  | _ => exact h.elim

/-- No comment stands in values. -/
theorem AreValues.remarksEach_eq_nil {es : List Expr} (h : AreValues allowed es) :
    remarksEach es = [] := by
  cases es with
  | nil => rfl
  | cons e es =>
    rw [remarksEach, IsValue.remarks_eq_nil h.1, AreValues.remarksEach_eq_nil h.2, List.nil_append]

end

mutual

/-- The comments of a statement are those that its vocabulary allows. -/
theorem remarks_subset (hremark : ∀ e, allowed.remark e → e.remarks ⊆ comments) {e : Expr}
    (h : e.IsStmt allowed) : e.remarks ⊆ comments := by
  cases e with
  | mutable ty name value | constant ty name value | update name value | output name value =>
    rw [remarks, h.2.remarks_eq_nil]
    exact List.nil_subset comments
  | uninit | done => exact List.nil_subset comments
  | branch cond yes no =>
    rw [remarks, h.1.remarks_eq_nil, List.nil_append]
    exact List.append_subset.mpr
      ⟨remarksEach_subset hremark h.2.1, remarksEach_subset hremark h.2.2.1⟩
  | loop bound counter body =>
    rw [remarks, h.1.remarks_eq_nil, List.nil_append]
    exact remarksEach_subset hremark h.2.2
  | scope body =>
    have hbody : AreStmts allowed body := h
    exact remarksEach_subset hremark hbody
  | lineComment text | blockComment text => exact hremark _ h
  | int | bool | float | double | vec2 | vec3 | vec4 | mat4 | ref | call | binary | field | index
  | array =>
    rw [IsValue.remarks_eq_nil h]
    exact List.nil_subset comments

/-- The comments of statements are those that their vocabulary allows. -/
theorem remarksEach_subset (hremark : ∀ e, allowed.remark e → e.remarks ⊆ comments) {es : List Expr}
    (h : AreStmts allowed es) : remarksEach es ⊆ comments := by
  cases es with
  | nil => exact List.nil_subset comments
  | cons e es =>
    exact List.append_subset.mpr ⟨remarks_subset hremark h.1, remarksEach_subset hremark h.2⟩

end

end Expr

open ShaderLang.Expr

/-- The comments in the body of a function. -/
def Func.remarks (func : Func) : List Piece :=
  func.body?.toList.flatMap remarksEach

/-- The comments in the body of a shader. -/
def Shader.remarks (shader : Shader) : List Piece :=
  remarksEach shader.body

/-- The comments in all bodies of a module. -/
def Module.remarks (m : Module) : List Piece :=
  m.functions.flatMap Func.remarks ++
    m.programs.flatMap fun entry => entry.2.vertex.remarks ++ entry.2.fragment.remarks

/-! ## Markers among tokens -/

namespace Token

variable {flag : Bool} {comments : List Piece} {tokens left content : List Token} {stop span : Span}
  {e : Expr}

/-- No strewn tokens are read as the brackets of a marker, since no string stands among them. -/
theorem Strewn.commentText_ne_ok (h : Strewn flag comments tokens left) :
    Grammar.commentText stop tokens ≠ .ok e := by
  intro hread
  rcases Grammar.commentText_eq_ok hread with ⟨kind, place, joint, sign, text, span, rest, rfl, -⟩
  rcases h with _ | ⟨_, _, _, h⟩
  rcases h with _ | _ | _ | ⟨_, _, _, _, h⟩
  cases h

/-- The brackets of a marker are read as the comment that they hold. -/
theorem remarks_of_comment? {comment : Piece} (hcomment : comment? content = some comment)
    (hread : Grammar.commentText stop content = .ok e) : e.remarks = [comment] := by
  rcases Grammar.commentText_eq_ok hread with
    ⟨kind, place, joint, sign, text, span, rest, rfl, ⟨rfl, rfl⟩ | ⟨rfl, rfl⟩⟩
  · cases rest with
    | nil =>
      cases hcomment
      simp [remarks]
    | cons token rest => cases hcomment
  · cases rest with
    | nil =>
      cases hcomment
      simp [remarks]
    | cons token rest => cases hcomment

/-- No group stands in the brackets of a marker. -/
theorem not_within_of_comment? {comment : Piece} {inner : List Token} {delim : Delim}
    (hcomment : comment? content = some comment) : ¬ Within (.group delim inner span) content := by
  intro hin
  unfold comment? at hcomment
  split at hcomment
  · cases hin with
    | tail hin =>
      cases hin with
      | tail hin =>
        cases hin with
        | tail hin => cases hin
  · cases hcomment

/-- A marker among strewn tokens is one of the comments. -/
theorem Strewn.remarks_subset (h : Strewn flag comments tokens left)
    (hin : Within (.group .bracket content span) tokens)
    (hread : Grammar.commentText stop content = .ok e) : e.remarks ⊆ comments := by
  induction h with
  | nil => cases hin
  | name _ _ _ _ ih | number _ _ _ _ ih | mark _ _ _ _ _ ih =>
    cases hin with
    | tail hin => exact ih hin
  | group delim span span' hcontent hrest ihcontent ihrest =>
    cases hin with
    | head => exact absurd hread hcontent.commentText_ne_ok
    | tail hin => exact fun _ hmem => List.mem_append_right _ (ihrest hin hmem)
    | inside hin => exact fun _ hmem => List.mem_append_left _ (ihcontent hin hmem)
  | marker joint span span' hcomment hrest ih =>
    cases hin with
    | tail hin =>
      cases hin with
      | head =>
        rw [remarks_of_comment? hcomment hread]
        simp
      | tail hin => exact fun _ hmem => List.mem_cons_of_mem _ (ih hin hmem)
      | inside hin => exact absurd hin (not_within_of_comment? hcomment)

end Token

/-! ## Sources -/

/-- The vocabulary of some comments, with any names and fields. -/
def Vocabulary.ofRemarks (comments : List Piece) : Vocabulary :=
  ⟨fun _ => True, fun _ => True, fun e => e.remarks ⊆ comments⟩

/-- The comments of a source suit it, if no quotes stand in its code. -/
theorem Vocabulary.suitsSource_ofRemarks {source : List Char} {pieces : List Piece}
    (hsplit : Piece.split 0 source = .ok pieces) (hquotes : Lexeme.Unquoted pieces) :
    (ofRemarks (pieces.filterMap Piece.remark?)).SuitsSource source := by
  intro masked tokens hmasked htokens
  rw [Masked.ofSource, hsplit] at hmasked
  cases hmasked
  have hcut := (Piece.split_eq_ok_iff.mp hsplit).1
  rcases Lexeme.exists_strewn hcut hquotes htokens with ⟨-, left, flag, -, hstrewn⟩
  exact ⟨fun _ _ => trivial, fun _ => trivial, fun hin hread => hstrewn.remarks_subset hin hread⟩

/-- The comments of what is loaded are comments of the source without carriage returns, if no quotes
stand in its code. -/
theorem remarks_subset_of_load {diagnostics : List Diagnostic} {source : List Char} {m : Module}
    {pieces : List Piece} (hload : (load diagnostics source).module = some m)
    (hsplit : Piece.split 0 source = .ok pieces) (hquotes : Lexeme.Unquoted pieces) :
    m.remarks ⊆ pieces.filterMap Piece.remark? := by
  rcases isPlaced_of_load hload (Vocabulary.suitsSource_ofRemarks hsplit hquotes) with
    ⟨hfunctions, hprograms⟩
  have hbody : ∀ {es : List Expr},
      AreStmts (Vocabulary.ofRemarks (pieces.filterMap Piece.remark?)).linked es →
        remarksEach es ⊆ pieces.filterMap Piece.remark? :=
    fun hes => remarksEach_subset (fun _ hremark => hremark) hes
  intro comment hmem
  rcases List.mem_append.mp hmem with hmem | hmem
  · rcases List.mem_flatMap.mp hmem with ⟨func, hfunc, hmem⟩
    rcases List.mem_flatMap.mp hmem with ⟨body, hbody?, hmem⟩
    exact hbody ((hfunctions func hfunc).body body (Option.mem_toList.mp hbody?)) hmem
  · rcases List.mem_flatMap.mp hmem with ⟨entry, hentry, hmem⟩
    rcases hprograms entry hentry with ⟨-, hplaced⟩
    rcases List.mem_append.mp hmem with hmem | hmem
    · exact hbody hplaced.vertex.body hmem
    · exact hbody hplaced.fragment.body hmem

/-- A comment of a source is closed also without its carriage returns, unless these keep a star and a
slash of a block comment apart. -/
theorem exists_of_not_isClosed {source : List Char} {pieces : List Piece} {comment : Piece}
    (hsplit : Piece.split 0 source = .ok pieces)
    (hmem : comment ∈ pieces.filterMap Piece.remark?) (hopen : ¬ comment.IsClosed) :
    ∃ text, .block text ∈ pieces ∧ comment = .block (text.filter (· != '\r')) ∧
      ['*', '/'] <:+: text.filter (· != '\r') ∧ ¬ ['*', '/'] <:+: text := by
  have hcut := (Piece.split_eq_ok_iff.mp hsplit).1
  rcases List.mem_filterMap.mp hmem with ⟨piece, hpiece, hremark⟩
  cases piece with
  | code text => cases hremark
  | line text =>
    cases hremark
    exact absurd (fun hbreak => hcut.newline_not_mem hpiece (List.mem_of_mem_filter hbreak)) hopen
  | block text =>
    cases hremark
    exact ⟨text, hpiece, rfl, not_not.mp hopen, hcut.isWhole _ hpiece⟩

end ShaderLang
