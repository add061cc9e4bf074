import ShaderLang.Proofs.Outcome
import ShaderLang.Target.Stage

/-!
# What generation refuses

A stage has a text exactly if every node in the place of a value can stand there, and otherwise it
is refused for the first node that cannot, in the order in which the text is written.  This holds of
all trees, also of those that no source gives.

Main results:

- Theorem `Settled.bind`: what is refused first in a sequence of computations.
- Theorem `value_settled`, `block_settled`: values and statements are refused for the first of their
  nodes that has no text.
- Theorem `stage_refused_iff`: when a stage has a text, and for which node it is refused if not.
-/

namespace ShaderLang

/-! ## Nodes in the place of values -/

namespace Expr

/-- The nodes that have a text in the place of a value. -/
def isWritable : Expr → Bool
  | int _ | bool _ | float _ | double _ => true
  | vec2 .. | vec3 .. | vec4 .. | array _ => true
  | ref _ | call .. | binary .. | field .. | index .. => true
  | _ => false

mutual

/-- The nodes in the place of values that are written for a value: the value, and then those that it
is made of. -/
def valueNodes : Expr → List Expr
  | vec2 x y => vec2 x y :: (valueNodes x ++ valueNodes y)
  | vec3 x y z => vec3 x y z :: (valueNodes x ++ (valueNodes y ++ valueNodes z))
  | vec4 x y z w =>
    vec4 x y z w :: (valueNodes x ++ (valueNodes y ++ (valueNodes z ++ valueNodes w)))
  | array items => array items :: eachNodes items
  | call name args => call name args :: eachNodes args
  | binary op lhs rhs => binary op lhs rhs :: (valueNodes lhs ++ valueNodes rhs)
  | field base name => field base name :: valueNodes base
  | index base position => index base position :: (valueNodes base ++ valueNodes position)
  | e => [e]

/-- The nodes in the place of values that are written for some values. -/
def eachNodes : List Expr → List Expr
  | [] => []
  | e :: es => valueNodes e ++ eachNodes es

end

mutual

/-- The nodes in the place of values that are written for a statement.  The bound of a loop is
written after its body, and the second block of a branch only if it has statements. -/
def stmtNodes : Expr → List Expr
  | mutable _ _ e | constant _ _ e | update _ e | output _ e => valueNodes e
  | branch cond yes no =>
    valueNodes cond ++ (blockNodes yes ++ if Block.hasNone no then [] else blockNodes no)
  | loop bound _ body => blockNodes body ++ valueNodes bound
  | scope body => blockNodes body
  | uninit .. | lineComment _ | blockComment _ | done => []
  | e => valueNodes e

/-- The nodes in the place of values that are written for the statements of a block. -/
def blockNodes : List Expr → List Expr
  | [] => []
  | e :: es => stmtNodes e ++ blockNodes es

end

end Expr

namespace Target

open ShaderLang.Expr

/-- The nodes in the place of values that are written for a stage: those of the functions that have
a body, one function after the other, and then those of the shader. -/
def stageNodes (functions : List Func) (shader : Shader) : List Expr :=
  functions.flatMap (fun func => func.body?.toList.flatMap blockNodes) ++ blockNodes shader.body

/-! ## Refusals -/

/-- Why a node has no text in the place of a value. -/
def refusal : Expr → Refusal
  | .mat4 _ => .matrix
  | e => .misplaced e

/-- Something is refused for the first of some nodes that has no text, and is given if all have
one. -/
def Settled {α : Type} (nodes : List Expr) (x : Except Refusal α) : Prop :=
  match nodes.find? (!·.isWritable) with
  | none => ∃ a, x = .ok a
  | some e => x = .error (refusal e)

namespace Settled

variable {α β : Type} {nodes more : List Expr} {x : Except Refusal α} {f : α → Except Refusal β}

/-- What needs no node is given. -/
theorem ok (a : α) : Settled [] (.ok a) :=
  ⟨a, rfl⟩

/-- A node that has no text is refused. -/
theorem refused {e : Expr} (h : e.isWritable = false) (more : List Expr) :
    Settled (e :: more) (.error (refusal e) : Except Refusal α) := by
  simp [Settled, h]

/-- A node that has a text is not refused itself. -/
theorem cons {e : Expr} (he : e.isWritable = true) (h : Settled nodes x) :
    Settled (e :: nodes) x := by
  simpa [Settled, he] using h

/-- Of one thing after another, what is refused in the first one is refused first. -/
theorem bind (hx : Settled nodes x) (hf : ∀ a, Settled more (f a)) :
    Settled (nodes ++ more) (x >>= f) := by
  unfold Settled at hx
  unfold Settled
  rw [List.find?_append]
  cases hfound : nodes.find? (!·.isWritable) with
  | none =>
    rw [hfound] at hx
    rcases hx with ⟨a, rfl⟩
    exact hf a
  | some e =>
    rw [hfound] at hx
    rw [hx]
    rfl

/-- What follows without a node changes nothing. -/
theorem andThen (hx : Settled nodes x) (hf : ∀ a, Settled [] (f a)) : Settled nodes (x >>= f) := by
  simpa using hx.bind hf

/-- Something is given exactly if all nodes have a text. -/
theorem ok_iff (h : Settled nodes x) : (∃ a, x = .ok a) ↔ ∀ e ∈ nodes, e.isWritable = true := by
  unfold Settled at h
  cases hfound : nodes.find? (!·.isWritable) with
  | none =>
    rw [hfound] at h
    simp only [List.find?_eq_none, Bool.not_eq_true', Bool.not_eq_false] at hfound
    exact iff_of_true h hfound
  | some e =>
    rw [hfound] at h
    refine iff_of_false ?_ fun hall => ?_
    · rintro ⟨a, rfl⟩
      cases h
    · have hwritable := hall e (List.mem_of_find?_eq_some hfound)
      simpa [hwritable] using List.find?_some hfound

/-- Something is refused exactly for the first node that has no text. -/
theorem error_iff (h : Settled nodes x) {cause : Refusal} :
    x = .error cause ↔ ∃ before e after, nodes = before ++ e :: after ∧
      (∀ node ∈ before, node.isWritable = true) ∧ e.isWritable = false ∧ cause = refusal e := by
  have hfirst : ∀ e, nodes.find? (!·.isWritable) = some e ↔ ∃ before after,
      nodes = before ++ e :: after ∧ (∀ node ∈ before, node.isWritable = true) ∧
        e.isWritable = false := by
    intro e
    rw [List.find?_eq_some_iff_append]
    simp only [Bool.not_eq_true', Bool.not_not]
    constructor
    · rintro ⟨he, before, after, hnodes, hbefore⟩
      exact ⟨before, after, hnodes, hbefore, he⟩
    · rintro ⟨before, after, hnodes, hbefore, he⟩
      exact ⟨he, before, after, hnodes, hbefore⟩
  constructor
  · rintro rfl
    unfold Settled at h
    cases hfound : nodes.find? (!·.isWritable) with
    | none =>
      rw [hfound] at h
      rcases h with ⟨a, ha⟩
      cases ha
    | some e =>
      rw [hfound] at h
      rcases (hfirst e).mp hfound with ⟨before, after, hnodes, hbefore, he⟩
      exact ⟨before, e, after, hnodes, hbefore, he, Except.error.inj h⟩
  · rintro ⟨before, e, after, hnodes, hbefore, he, rfl⟩
    rw [Settled, (hfirst e).mpr ⟨before, after, hnodes, hbefore, he⟩] at h
    exact h

end Settled

/-! ## Values and statements -/

mutual

/-- A value is refused for the first of its nodes that has no text. -/
theorem value_settled (e : Expr) : Settled (valueNodes e) (value e) := by
  cases e with
  | int | bool | float | double | ref => exact .cons rfl (.ok _)
  | vec2 x y =>
    rw [value]
    exact .cons rfl ((value_settled x).bind fun _ => (value_settled y).andThen fun _ => .ok _)
  | vec3 x y z =>
    rw [value]
    exact .cons rfl ((value_settled x).bind fun _ => (value_settled y).bind fun _ =>
      (value_settled z).andThen fun _ => .ok _)
  | vec4 x y z w =>
    rw [value]
    exact .cons rfl ((value_settled x).bind fun _ => (value_settled y).bind fun _ =>
      (value_settled z).bind fun _ => (value_settled w).andThen fun _ => .ok _)
  | call name items | array items =>
    rw [value]
    exact .cons rfl ((values_settled items).andThen fun _ => .ok _)
  | binary op x y | index x y =>
    rw [value]
    exact .cons rfl ((value_settled x).bind fun _ => (value_settled y).andThen fun _ => .ok _)
  | field base name =>
    rw [value]
    exact .cons rfl ((value_settled base).andThen fun _ => .ok _)
  | _ => exact .refused rfl []

/-- Values are refused for the first of their nodes that has no text. -/
theorem values_settled (es : List Expr) : Settled (eachNodes es) (values es) := by
  cases es with
  | nil => exact .ok _
  | cons e es =>
    rw [values]
    exact (value_settled e).bind fun _ => (values_settled es).andThen fun _ => .ok _

end

/-- A statement that stands on its own is refused for the first of its nodes that has no text. -/
theorem effect_settled {e : Expr} (hform : e.form = .effect) :
    Settled (stmtNodes e) (effect e) := by
  cases e with
  | mutable ty name e | constant ty name e | update name e | output name e =>
    rw [effect]
    exact (value_settled e).andThen fun _ => .ok _
  | uninit ty name => exact .ok _
  | call name args => exact value_settled (.call name args)
  | _ => cases hform

mutual

/-- A statement is refused for the first of its nodes that has no text. -/
theorem stmt_settled (page : Page) (e : Expr) : Settled (stmtNodes e) (page.stmt e) := by
  cases e with
  | branch cond yes no =>
    rw [Page.stmt, stmtNodes]
    refine (value_settled cond).bind fun _ => (block_settled _ yes).bind fun page => ?_
    split
    · exact .ok _
    · exact (block_settled _ no).andThen fun _ => .ok _
  | loop bound counter body =>
    rw [Page.stmt]
    exact (block_settled _ body).bind fun _ => (value_settled bound).andThen fun _ => .ok _
  | scope body =>
    rw [Page.stmt]
    exact (block_settled _ body).andThen fun _ => .ok _
  | lineComment | blockComment | done => exact .ok _
  | mutable | uninit | constant | update | output | call =>
    exact (effect_settled rfl).andThen fun _ => .ok _
  | int | bool | float | double | vec2 | vec3 | vec4 | mat4 | ref | binary | field | index
  | array =>
    exact (value_settled _).andThen fun _ => .ok _

/-- Statements are refused for the first of their nodes that has no text. -/
theorem block_settled (page : Page) (es : List Expr) : Settled (blockNodes es) (page.block es) := by
  cases es with
  | nil => exact .ok _
  | cons e es =>
    rw [Page.block]
    exact (stmt_settled page e).bind fun page => block_settled page es

end

/-! ## Stages -/

/-- Functions are refused for the first node of the first body that has no text. -/
theorem functions_settled (page : Page) (functions : List Func) :
    Settled (functions.flatMap fun func => func.body?.toList.flatMap blockNodes)
      (page.functions functions) := by
  induction functions generalizing page with
  | nil => exact .ok _
  | cons func rest ih =>
    have hfunc : Settled (func.body?.toList.flatMap blockNodes) (page.function func) := by
      unfold Page.function
      cases func.body? with
      | none => exact .ok _
      | some body =>
        rw [Option.toList_some, List.flatMap_singleton]
        exact (block_settled _ body).andThen fun _ => .ok _
    rw [Page.functions, List.flatMap_cons]
    exact hfunc.bind fun page => ih page

/-- A stage is refused for the first of its nodes that has no text. -/
theorem stage_settled (globals : List Global) (functions : List Func) (shader : Shader) :
    Settled (stageNodes functions shader) (stage globals functions shader) := by
  have hpage : Settled (stageNodes functions shader) (stagePage globals functions shader) :=
    (functions_settled _ functions).bind fun _ =>
      (block_settled _ shader.body).andThen fun _ => .ok _
  exact hpage.andThen fun page => .ok page.text

/-- Generation of a stage fails exactly on misplaced nodes, for all trees.  It gives a text exactly
if every node in the place of a value is a literal, a vector, an array, a name, a call, an operation or
an access.  Otherwise it is refused for the first other node in the order of writing: as a matrix if
the node is one, and else as misplaced with exactly this node. -/
theorem stage_refused_iff (globals : List Global) (functions : List Func) (shader : Shader) :
    ((∃ text, stage globals functions shader = .ok text) ↔
      ∀ e ∈ stageNodes functions shader, e.isWritable = true) ∧
    ∀ cause, stage globals functions shader = .error cause ↔
      ∃ before e after, stageNodes functions shader = before ++ e :: after ∧
        (∀ node ∈ before, node.isWritable = true) ∧ e.isWritable = false ∧ cause = refusal e := by
  have hsettled := stage_settled globals functions shader
  exact ⟨hsettled.ok_iff, fun cause => hsettled.error_iff⟩

-- The body of a loop is written before its bound, so the node in the body is the one refused.
example :
    stage [] []
      ⟨.fragment, [], [], [.loop (.mat4 []) none [.update "x" (.scope []), .done], .done]⟩ =
        .error (.misplaced (.scope [])) := rfl

end Target

end ShaderLang
