import ShaderLang.Grammar.Comment
import ShaderLang.Grammar.Name
import ShaderLang.Grammar.Ty

/-!
# Expressions

Operators are read by climbing their binding strengths; all of them associate to the left.  An
operand is a primary expression and the indices and fields after it.  Parentheses hold an
expression or the prefix form `op a b`.  Comments are passed over before an operand, and before an
operator if one follows.

A reader takes the tokens from some place up to the end of the enclosing group, which is blamed as
`stop`, and tells how many of them it takes.
-/

namespace ShaderLang

namespace Grammar

/-- Dropping tokens leaves no more than there were. -/
theorem sizeOf_drop_le (tokens : List Token) (n : Nat) :
    sizeOf (tokens.drop n) ≤ sizeOf tokens := by
  induction tokens generalizing n with
  | nil => simp
  | cons token rest ih =>
    cases n with
    | zero => simp
    | succ n =>
      have := ih n
      simp only [List.drop_succ_cons, List.cons.sizeOf_spec]
      omega

/-- What follows the first of some remaining tokens is less than all tokens. -/
theorem sizeOf_lt_of_drop_eq_cons {tokens rest : List Token} {n : Nat} {token : Token}
    (h : tokens.drop n = token :: rest) (k : Nat) :
    sizeOf (rest.drop k) < sizeOf tokens := by
  have hdropped := sizeOf_drop_le tokens n
  have htail := sizeOf_drop_le rest k
  rw [h] at hdropped
  simp only [List.cons.sizeOf_spec] at hdropped
  omega

/-- The tokens of a group among some remaining tokens are less than all tokens. -/
theorem sizeOf_content_lt {tokens content rest : List Token} {n : Nat} {delim : Delim}
    {span : Span} (before : List Token)
    (h : tokens.drop n = before ++ .group delim content span :: rest) :
    sizeOf content < sizeOf tokens := by
  have hdropped := sizeOf_drop_le tokens n
  have hinner := sizeOf_drop_le (before ++ .group delim content span :: rest) before.length
  rw [List.drop_left] at hinner
  rw [h] at hdropped
  simp only [List.cons.sizeOf_spec, Token.group.sizeOf_spec] at hinner
  omega

/-- A reader of fewer tokens ranks lower, whatever the places of the two readers in their group. -/
theorem rank_lt_of_lt {m n i j : Nat} (hi : i < 8) (h : m < n) : 8 * m + i < 8 * n + j := by
  omega

/-- An earlier reader of no more tokens ranks lower. -/
theorem rank_lt_of_le {m n i j : Nat} (h : m ≤ n) (hij : i < j) : 8 * m + i < 8 * n + j := by
  omega

/-! ## Expressions without groups -/

/-- The type whose constructor a word names. -/
def constructor? : String → Option Ty
  | "Vec2" => some .vec2
  | "Vec3" => some .vec3
  | "Vec4" => some .vec4
  | "Mat4" => some .mat4
  | _ => none

/-- A vector or matrix with its components, which stand in parentheses at `span`. -/
def construct (ty : Ty) (args : List Expr) (span : Span) : Except Fault Expr :=
  match ty, args with
  | .vec2, [x, y] => .ok (.vec2 x y)
  | .vec3, [x, y, z] => .ok (.vec3 x y z)
  | .vec4, [x, y, z, w] => .ok (.vec4 x y z w)
  | .mat4, items => if items.length = 16 then .ok (.mat4 items) else .error (wrong 16)
  | ty, _ => .error (wrong (ty.vectorSize.getD 0))
where
  /-- The fault of a wrong number of components. -/
  wrong (wanted : Nat) : Fault := ⟨.componentCount ty wanted args.length, span⟩

/-- A minus sign and a literal after it stand first. -/
def negated? : List Token → Option (Taken (Constant × Span))
  | .punct '-' _ _ :: rest => (literal? rest).map fun found => ⟨found.value, found.width + 1⟩
  | _ => none

/-- Take a literal, a literal after one more minus sign, or the name of a variable. -/
def atom (stop : Span) (tokens : List Token) : Except Fault (Taken Expr) :=
  match literal? tokens with
  | some ⟨(.truth value, _), width⟩ => .ok ⟨.bool value, width⟩
  | some ⟨(constant, span), width⟩ => blame span width (number false constant)
  | none =>
    match negated? tokens with
    | some ⟨(constant, span), width⟩ => blame span width (number true constant)
    | none =>
      match tokens with
      | .ident text _ :: rest =>
        if (constructor? text).isSome then .error (.missing stop rest (.group .paren))
        else if Word.isReserved text then .error (.missing stop tokens .expression)
        else .ok ⟨.ref text, 1⟩
      | _ => .error (.missing stop tokens .expression)
where
  /-- Blame a wrong number on where it stands. -/
  blame (span : Span) (width : Nat) : Except Cause Expr → Except Fault (Taken Expr)
    | .ok e => .ok ⟨e, width⟩
    | .error cause => .error ⟨cause, span⟩

/-! ## Expressions with groups

The readers take the binding strength of the operators as a parameter.
-/

section Climbing

variable (strength : Operator → Nat)

mutual

/-- Take operands and operators that bind at least as tight as `least`. -/
def binary (least : Nat) (stop : Span) (tokens : List Token) : Except Fault (Taken Expr) := do
  let lhs ← operand stop tokens
  let e ← chain least stop lhs.value (tokens.drop lhs.width)
  return ⟨e.value, lhs.width + e.width⟩
termination_by 8 * sizeOf tokens + 4
decreasing_by
  · exact rank_lt_of_le (Nat.le_refl _) (by decide)
  · exact rank_lt_of_le (sizeOf_drop_le ..) (by decide)

/-- Take the operators that bind at least as tight as `least`, each with its right operand, and join
them to the expression before them.  Comments are taken only if an operator follows. -/
def chain (least : Nat) (stop : Span) (lhs : Expr) (tokens : List Token) :
    Except Fault (Taken Expr) := do
  let skipped ← comments tokens
  match _h : tokens.drop skipped with
  | [] => return ⟨lhs, 0⟩
  | token :: rest =>
    match operator? (token :: rest) with
    | none => return ⟨lhs, 0⟩
    | some op =>
      if strength op.value < least then return ⟨lhs, 0⟩
      else
        let rhs ← binary (strength op.value + 1) stop (rest.drop (op.width - 1))
        let e ← chain least stop (.binary op.value lhs rhs.value)
          (rest.drop (op.width - 1 + rhs.width))
        return ⟨e.value, skipped + op.width + rhs.width + e.width⟩
termination_by 8 * sizeOf tokens + 3
decreasing_by
  all_goals exact rank_lt_of_lt (by decide) (sizeOf_lt_of_drop_eq_cons _h _)

/-- Take a primary expression and the indices and fields after it. -/
def operand (stop : Span) (tokens : List Token) : Except Fault (Taken Expr) := do
  let base ← primary stop tokens
  let e ← accesses base.value (tokens.drop base.width)
  return ⟨e.value, base.width + e.width⟩
termination_by 8 * sizeOf tokens + 3
decreasing_by
  · exact rank_lt_of_le (Nat.le_refl _) (by decide)
  · exact rank_lt_of_le (sizeOf_drop_le ..) (by decide)

/-- Take indices in brackets and fields after a point. -/
def accesses (base : Expr) (tokens : List Token) : Except Fault (Taken Expr) :=
  match tokens with
  | .group .bracket content span :: rest => do
    let position ← whole span.last content
    let e ← accesses (.index base position) rest
    return ⟨e.value, e.width + 1⟩
  | .punct '.' _ _ :: .ident name _ :: rest => do
    let e ← accesses (.field base name) rest
    return ⟨e.value, e.width + 2⟩
  | _ => .ok ⟨base, 0⟩
termination_by 8 * sizeOf tokens + 0
decreasing_by
  all_goals
    apply rank_lt_of_lt (by decide)
    simp only [List.cons.sizeOf_spec, Token.group.sizeOf_spec]
    omega

/-- Take a primary expression, after comments. -/
def primary (stop : Span) (tokens : List Token) : Except Fault (Taken Expr) := do
  let skipped ← comments tokens
  match h : tokens.drop skipped with
  | .group .paren content span :: _ => return ⟨← parenthesized span.last content, skipped + 1⟩
  | .group .bracket content span :: _ => return ⟨.array (← items span.last content), skipped + 1⟩
  | .ident text place :: .group .paren content span :: rest =>
    match constructor? text with
    | some ty =>
      let args ← items span.last content
      return ⟨← construct ty args span, skipped + 2⟩
    | none =>
      if Word.isReserved text then
        let e ← atom stop (.ident text place :: .group .paren content span :: rest)
        return ⟨e.value, skipped + e.width⟩
      else return ⟨.call text (← items span.last content), skipped + 2⟩
  | rest =>
    let e ← atom stop rest
    return ⟨e.value, skipped + e.width⟩
termination_by 8 * sizeOf tokens + 2
decreasing_by
  · exact rank_lt_of_lt (by decide) (sizeOf_content_lt [] h)
  · exact rank_lt_of_lt (by decide) (sizeOf_content_lt [] h)
  · exact rank_lt_of_lt (by decide) (sizeOf_content_lt [_] h)
  · exact rank_lt_of_lt (by decide) (sizeOf_content_lt [_] h)

/-- The expression that parentheses hold: the prefix form if an operator stands first, except that a
minus sign may belong to a number. -/
def parenthesized (stop : Span) (tokens : List Token) : Except Fault Expr :=
  if (operator? tokens).isSome then
    match prefixed stop tokens with
    | .ok e => .ok e
    | .error fault => if (negated? tokens).isSome then whole stop tokens else .error fault
  else whole stop tokens
termination_by 8 * sizeOf tokens + 6
decreasing_by
  all_goals exact rank_lt_of_le (Nat.le_refl _) (by decide)

/-- The prefix form: an operator and two operands, and nothing after them. -/
def prefixed (stop : Span) (tokens : List Token) : Except Fault Expr := do
  let op ← operator stop tokens
  let lhs ← operand stop (tokens.drop op.width)
  let rhs ← operand stop (tokens.drop (op.width + lhs.width))
  finish (tokens.drop (op.width + lhs.width + rhs.width))
  return .binary op.value lhs.value rhs.value
termination_by 8 * sizeOf tokens + 5
decreasing_by
  all_goals exact rank_lt_of_le (sizeOf_drop_le ..) (by decide)

/-- One expression, and nothing after it. -/
def whole (stop : Span) (tokens : List Token) : Except Fault Expr := do
  let e ← binary 0 stop tokens
  finish (tokens.drop e.width)
  return e.value
termination_by 8 * sizeOf tokens + 5
decreasing_by
  exact rank_lt_of_le (Nat.le_refl _) (by decide)

/-- Expressions with commas between them; a comma may stand after the last one. -/
def items (stop : Span) (tokens : List Token) : Except Fault (List Expr) :=
  match tokens with
  | [] => .ok []
  | token :: rest => do
    let e ← binary 0 stop (token :: rest)
    match rest.drop (e.width - 1) with
    | [] => return [e.value]
    | next =>
      let _ ← mark ',' stop next
      return e.value :: (← items stop (rest.drop e.width))
termination_by 8 * sizeOf tokens + 5
decreasing_by
  · exact rank_lt_of_le (Nat.le_refl _) (by decide)
  · apply rank_lt_of_lt (by decide)
    have := sizeOf_drop_le rest e.width
    simp only [List.cons.sizeOf_spec]
    omega

end

end Climbing

end Grammar

end ShaderLang
