import ShaderLang.Proofs.Refusals
import ShaderLang.Proofs.Vocabulary

/-!
# Generation of accepted sources

A tree whose nodes stand where they can is written, unless it has a matrix: a matrix is the only
thing that cannot be written.  The trees of a source that loads are such trees, also after any
number of compositions, so generation is refused only for a matrix.

Main results:

- Theorem `value_blames` and `block_blames`: of the nodes of a well-placed tree only a matrix has no
  text.
- Theorem `stage_decided`: well-placed stages are refused exactly for a matrix.
- Theorem `generate_of_load`: what is generated from a source that loads.
-/

namespace ShaderLang

/-! ## Matrices -/

namespace Expr

mutual

/-- A matrix occurs in a tree, at any depth. -/
def hasMatrix : Expr → Bool
  | .mat4 _ => true
  | .mutable _ _ value | .constant _ _ value => hasMatrix value
  | .update _ value | .output _ value => hasMatrix value
  | .branch cond yes no => hasMatrix cond || (anyMatrix yes || anyMatrix no)
  | .loop bound _ body => hasMatrix bound || anyMatrix body
  | .scope body => anyMatrix body
  | .call _ args => anyMatrix args
  | .binary _ lhs rhs => hasMatrix lhs || hasMatrix rhs
  | .field base _ => hasMatrix base
  | .index base position => hasMatrix base || hasMatrix position
  | .vec2 x y => hasMatrix x || hasMatrix y
  | .vec3 x y z => hasMatrix x || (hasMatrix y || hasMatrix z)
  | .vec4 x y z w => hasMatrix x || (hasMatrix y || (hasMatrix z || hasMatrix w))
  | .array items => anyMatrix items
  | _ => false

/-- A matrix occurs in one of some trees. -/
def anyMatrix : List Expr → Bool
  | [] => false
  | e :: es => hasMatrix e || anyMatrix es

end

end Expr

namespace Target

open ShaderLang.Expr

/-! ## Refusals -/

/-- Something is refused for a matrix if there is one, and otherwise has a text. -/
def Decided {α : Type} (matrix : Bool) (x : Except Refusal α) : Prop :=
  match matrix with
  | true => x = .error .matrix
  | false => ∃ a, x = .ok a

section Decided

variable {α β : Type}

/-- What is given is not refused. -/
theorem Decided.ok (a : α) : Decided false (.ok a) :=
  ⟨a, rfl⟩

/-- One thing after another is refused if either has a matrix. -/
theorem Decided.bind {b c : Bool} {x : Except Refusal α} {f : α → Except Refusal β}
    (hx : Decided b x) (hf : ∀ a, Decided c (f a)) : Decided (b || c) (x >>= f) := by
  cases b with
  | true =>
    obtain rfl : x = .error .matrix := hx
    rfl
  | false =>
    obtain ⟨a, rfl⟩ := hx
    exact hf a

/-- What follows without a matrix changes nothing. -/
theorem Decided.andThen {b : Bool} {x : Except Refusal α} {f : α → Except Refusal β}
    (hx : Decided b x) (hf : ∀ a, Decided false (f a)) : Decided b (x >>= f) := by
  simpa using hx.bind hf

/-- What is refused, and what is not. -/
theorem Decided.error_iff {b : Bool} {x : Except Refusal α} (h : Decided b x) :
    x = .error .matrix ↔ b = true := by
  cases b with
  | true => simpa [Decided] using h
  | false =>
    obtain ⟨a, rfl⟩ := h
    simp

/-- Nothing is refused for a misplaced node. -/
theorem Decided.ne_misplaced {b : Bool} {x : Except Refusal α} (h : Decided b x) (e : Expr) :
    x ≠ .error (.misplaced e) := by
  cases b with
  | true =>
    obtain rfl : x = .error .matrix := h
    simp
  | false =>
    obtain ⟨a, rfl⟩ := h
    simp

end Decided

/-! ## Trees -/

/-- The first of some nodes that has no text is a matrix if there is one, and otherwise all nodes
have a text. -/
def Blames (matrix : Bool) (nodes : List Expr) : Prop :=
  match matrix with
  | true => ∃ items, nodes.find? (!·.isWritable) = some (.mat4 items)
  | false => nodes.find? (!·.isWritable) = none

namespace Blames

variable {b c : Bool} {nodes more : List Expr}

/-- There is no matrix where there is no node. -/
theorem nil : Blames false [] :=
  rfl

/-- A node that has a text changes nothing. -/
theorem cons {e : Expr} (he : e.isWritable = true) (h : Blames b nodes) :
    Blames b (e :: nodes) := by
  cases b with
  | true => simpa [Blames, he] using h
  | false => simpa [Blames, he] using h

/-- Nodes after others have a matrix if either do. -/
theorem append (h : Blames b nodes) (hmore : Blames c more) : Blames (b || c) (nodes ++ more) := by
  cases b with
  | true =>
    obtain ⟨items, hfound⟩ := h
    exact ⟨items, by rw [List.find?_append, hfound, Option.some_or]⟩
  | false =>
    have hfound : (nodes ++ more).find? (!·.isWritable) = more.find? (!·.isWritable) := by
      rw [List.find?_append, h, Option.none_or]
    unfold Blames at hmore ⊢
    rw [hfound]
    exact hmore

/-- What is refused for the first node that has no text is refused exactly for a matrix. -/
theorem decided (h : Blames b nodes) {α : Type} {x : Except Refusal α} (hx : Settled nodes x) :
    Decided b x := by
  unfold Settled at hx
  cases b with
  | true =>
    obtain ⟨items, hfound⟩ := h
    rw [hfound] at hx
    exact hx
  | false =>
    rw [h] at hx
    exact hx

end Blames

variable {allowed : Vocabulary}

mutual

/-- Of the nodes of a value only a matrix has no text. -/
theorem value_blames (e : Expr) (h : e.IsValue allowed) : Blames e.hasMatrix (valueNodes e) := by
  cases e with
  | int | bool | float | double | ref => exact .cons rfl .nil
  | mat4 items => exact ⟨items, rfl⟩
  | vec2 x y => exact .cons rfl ((value_blames x h.1).append (value_blames y h.2))
  | vec3 x y z =>
    exact .cons rfl ((value_blames x h.1).append
      ((value_blames y h.2.1).append (value_blames z h.2.2)))
  | vec4 x y z w =>
    exact .cons rfl ((value_blames x h.1).append ((value_blames y h.2.1).append
      ((value_blames z h.2.2.1).append (value_blames w h.2.2.2))))
  | call name args => exact .cons rfl (values_blame args h.2)
  | array items => exact .cons rfl (values_blame items h)
  | binary op lhs rhs => exact .cons rfl ((value_blames lhs h.1).append (value_blames rhs h.2))
  | field base name => exact .cons rfl (value_blames base h.1)
  | index base position =>
    exact .cons rfl ((value_blames base h.1).append (value_blames position h.2))
  | _ => exact h.elim

/-- Of the nodes of some values only a matrix has no text. -/
theorem values_blame (es : List Expr) (h : AreValues allowed es) :
    Blames (anyMatrix es) (eachNodes es) := by
  cases es with
  | nil => exact .nil
  | cons e es => exact (value_blames e h.1).append (values_blame es h.2)

end

mutual

/-- Of the nodes of a statement only a matrix has no text. -/
theorem stmt_blames (e : Expr) (h : e.IsStmt allowed) : Blames e.hasMatrix (stmtNodes e) := by
  cases e with
  | mutable ty name e | constant ty name e | update name e | output name e =>
    exact value_blames e h.2
  | branch cond yes no =>
    obtain ⟨hcond, hyes, hno, hsealed⟩ := h
    refine (value_blames cond hcond).append ((block_blames yes hyes).append ?_)
    cases hnone : Block.hasNone no with
    | true =>
      rw [hsealed.eq_done hnone]
      exact .nil
    | false => exact block_blames no hno
  | loop bound counter body =>
    -- the bound is written after the body
    rw [hasMatrix, Bool.or_comm]
    exact (block_blames body h.2.2).append (value_blames bound h.1)
  | scope body => exact block_blames body h
  | uninit | lineComment | blockComment | done => exact .nil
  | int | bool | float | double | vec2 | vec3 | vec4 | mat4 | ref | call | binary | field | index
  | array =>
    have hvalue : IsValue allowed _ := h
    exact value_blames _ hvalue

/-- Of the nodes of a block only a matrix has no text. -/
theorem block_blames (es : List Expr) (h : AreStmts allowed es) :
    Blames (anyMatrix es) (blockNodes es) := by
  cases es with
  | nil => exact .nil
  | cons e es => exact (stmt_blames e h.1).append (block_blames es h.2)

end

/-! ## Stages and programs -/

/-- A matrix occurs in the body of a function. -/
def funcHasMatrix (func : Func) : Bool :=
  func.body?.any anyMatrix

/-- A matrix occurs in one of some functions or in a shader of a program. -/
def programHasMatrix (functions : List Func) (program : Program) : Bool :=
  functions.any funcHasMatrix || (anyMatrix program.vertex.body || anyMatrix program.fragment.body)

/-- Of the nodes of some functions only a matrix has no text. -/
theorem functions_blame {functions : List Func}
    (h : ∀ func ∈ functions, ∀ body ∈ func.body?, AreStmts allowed body) :
    Blames (functions.any funcHasMatrix)
      (functions.flatMap fun func => func.body?.toList.flatMap blockNodes) := by
  induction functions with
  | nil => exact .nil
  | cons func rest ih =>
    rw [List.forall_mem_cons] at h
    have hfunc : Blames (funcHasMatrix func) (func.body?.toList.flatMap blockNodes) := by
      unfold funcHasMatrix
      cases hbody : func.body? with
      | none => exact .nil
      | some body =>
        rw [Option.toList_some, List.flatMap_singleton]
        exact block_blames body (h.1 body hbody)
    rw [List.any_cons, List.flatMap_cons]
    exact hfunc.append (ih h.2)

/-- A stage is refused exactly if a function or the shader has a matrix. -/
theorem stage_decided {functions : List Func} {shader : Shader}
    (hfunctions : ∀ func ∈ functions, ∀ body ∈ func.body?, AreStmts allowed body)
    (hshader : AreStmts allowed shader.body) (globals : List Global) :
    Decided (functions.any funcHasMatrix || anyMatrix shader.body)
      (stage globals functions shader) :=
  ((functions_blame hfunctions).append (block_blames shader.body hshader)).decided
    (stage_settled globals functions shader)

/-- A program is refused exactly if a function or one of its shaders has a matrix. -/
theorem program_decided {functions : List Func} {program : Program}
    (hfunctions : ∀ func ∈ functions, ∀ body ∈ func.body?, AreStmts allowed body)
    (hvertex : AreStmts allowed program.vertex.body)
    (hfragment : AreStmts allowed program.fragment.body) :
    Decided (programHasMatrix functions program) (Target.program functions program) := by
  have hboth := (stage_decided hfunctions hvertex (vertexGlobals program)).bind fun vertex =>
    (stage_decided hfunctions hfragment (fragmentGlobals program)).andThen fun fragment =>
      Decided.ok (ProgramText.mk vertex fragment)
  have hmatrix : programHasMatrix functions program =
      (functions.any funcHasMatrix || anyMatrix program.vertex.body ||
        (functions.any funcHasMatrix || anyMatrix program.fragment.body)) := by
    unfold programHasMatrix
    cases functions.any funcHasMatrix <;> simp
  rw [hmatrix]
  exact hboth

/-- Programs are refused exactly if a function or a shader of one of them has a matrix. -/
theorem programs_decided {functions : List Func} {entries : List (String × Program)}
    (hfunctions : ∀ func ∈ functions, ∀ body ∈ func.body?, AreStmts allowed body)
    (hentries : ∀ entry ∈ entries,
      AreStmts allowed entry.2.vertex.body ∧ AreStmts allowed entry.2.fragment.body) :
    Decided (entries.any fun entry => programHasMatrix functions entry.2)
      (programs functions entries) := by
  induction entries with
  | nil => exact Decided.ok _
  | cons entry rest ih =>
    obtain ⟨name, first⟩ := entry
    rw [List.forall_mem_cons] at hentries
    rw [programs, List.any_cons]
    exact (program_decided hfunctions hentries.1.1 hentries.1.2).bind fun text =>
      (ih hentries.2).andThen fun texts => Decided.ok _

end Target

/-! ## Sources -/

open ShaderLang.Expr

namespace Target

/-- Generation of a source that loads is refused exactly if a matrix occurs in a function or in a
shader of a wanted program, and some program is wanted. -/
theorem generate_decided {diagnostics : List Diagnostic} {source : List Char} {m : Module}
    (h : (load diagnostics source).module = some m) (only : Option String) :
    Decided ((selected m only).any fun entry => programHasMatrix m.functions entry.2)
      (generate m only) := by
  obtain ⟨hfunctions, hprograms⟩ := isPlaced_of_load h (Vocabulary.suitsSource_unreserved source)
  refine programs_decided (fun func hfunc => (hfunctions func hfunc).body) fun entry hentry => ?_
  have hprogram := (hprograms entry (List.mem_filter.mp hentry).1).2
  exact ⟨hprogram.vertex.body, hprogram.fragment.body⟩

/-- Two programs; the first runs a composite whose second shader has a matrix. -/
def twoPrograms : List Char :=
  "vert a:()->(Int x)=\x7bout x=1\x7d".toList ++
  "vert b:(Int x)->()=\x7bMat4(0,0,0,0,0,0,0,0,0,0,0,0,0,0,0,0)\x7d".toList ++
  "vert c:()->()=b.a p:Prog=mkProg c a q:Prog=mkProg a a".toList

/-- No source that loads has a misplaced node: generation is refused exactly if some program is
wanted and a matrix occurs, at any depth, in a function or in a shader of a wanted program, and
otherwise gives texts. -/
theorem generate_of_load {diagnostics : List Diagnostic} {source : List Char} {m : Module}
    (h : (load diagnostics source).module = some m) (only : Option String) :
    (∀ e, generate m only ≠ .error (.misplaced e)) ∧
      (generate m only = .error .matrix ↔
        selected m only ≠ [] ∧
          ((∃ func ∈ m.functions, ∃ body ∈ func.body?, anyMatrix body = true) ∨
            ∃ entry ∈ selected m only,
              anyMatrix entry.2.vertex.body = true ∨ anyMatrix entry.2.fragment.body = true)) ∧
      (generate m only ≠ .error .matrix → ∃ texts, generate m only = .ok texts) := by
  have hdecided := generate_decided h only
  refine ⟨hdecided.ne_misplaced, ?_, fun hmatrix => ?_⟩
  · rw [hdecided.error_iff]
    simp only [List.any_eq_true, programHasMatrix, funcHasMatrix, Bool.or_eq_true,
      Option.any_eq_true]
    constructor
    · rintro ⟨entry, hentry, hfunctions | hshaders⟩
      · exact ⟨List.ne_nil_of_mem hentry, Or.inl hfunctions⟩
      · exact ⟨List.ne_nil_of_mem hentry, Or.inr ⟨entry, hentry, hshaders⟩⟩
    · rintro ⟨hsome, hfunctions | ⟨entry, hentry, hshaders⟩⟩
      · obtain ⟨entry, hentry⟩ := List.exists_mem_of_ne_nil _ hsome
        exact ⟨entry, hentry, Or.inl hfunctions⟩
      · exact ⟨entry, hentry, Or.inr hshaders⟩
  · cases hany : (selected m only).any fun entry => programHasMatrix m.functions entry.2 with
    | true => exact absurd (hdecided.error_iff.mpr hany) hmatrix
    | false =>
      rw [hany] at hdecided
      exact hdecided

/-- Of `twoPrograms` the second can be generated alone, but not both. -/
theorem generate_twoPrograms :
    ∃ m, (load [] twoPrograms).module = some m ∧ generate m none = .error .matrix ∧
      ∃ texts, generate m (some "q") = .ok texts := by
  have hevaluated : ((load [] twoPrograms).module.any fun m =>
      m.functions.isEmpty &&
        ((selected m none).any fun entry => anyMatrix entry.2.vertex.body) &&
        (selected m (some "q")).all fun entry =>
          !anyMatrix entry.2.vertex.body && !anyMatrix entry.2.fragment.body) = true := by
    decide +kernel
  obtain ⟨m, hm, hmatrix⟩ := (Option.any_eq_true _ _).mp hevaluated
  simp only [Bool.and_eq_true, List.isEmpty_iff, List.any_eq_true, List.all_eq_true,
    Bool.not_eq_true'] at hmatrix
  obtain ⟨⟨hfunctions, entry, hentry, hvertex⟩, hnone⟩ := hmatrix
  refine ⟨m, hm, ?_, ?_⟩
  · exact (generate_of_load hm none).2.1.mpr
      ⟨List.ne_nil_of_mem hentry, Or.inr ⟨entry, hentry, Or.inl hvertex⟩⟩
  · refine (generate_of_load hm (some "q")).2.2 fun hrefused => ?_
    rcases ((generate_of_load hm (some "q")).2.1.mp hrefused).2 with
      ⟨func, hfunc, -⟩ | ⟨other, hother, hmatrix⟩
    · rw [hfunctions] at hfunc
      cases hfunc
    · simp [hnone other hother] at hmatrix

end Target

end ShaderLang
