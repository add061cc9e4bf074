import ShaderLang.Grammar.Expr

/-!
# Statements and blocks

A block is a sequence of statements; semicolons may stand before, between and after them and mean
nothing.  A statement is a comment, a binding, an assignment, a branch, a loop or an expression.
-/

namespace ShaderLang

namespace Grammar

/-- Take one expression. -/
def expr (stop : Span) (tokens : List Token) : Except Fault (Taken Expr) :=
  binary Operator.prec 0 stop tokens

/-- Take a value that is assigned, with an equals sign before it that may be left out. -/
def assigned (stop : Span) (tokens : List Token) : Except Fault (Taken Expr) := do
  let sign := if startsMark '=' tokens && !startsPair '=' '=' tokens then 1 else 0
  let value ← expr stop (tokens.drop sign)
  return ⟨value.value, sign + value.width⟩

/-- Take a type, a name and a value after an equals sign. -/
def binding (stop : Span) (tokens : List Token) : Except Fault (Taken (Ty × String × Expr)) := do
  let ty ← ty stop tokens
  let rest := tokens.drop ty.width
  let name ← name stop rest
  let _ ← mark '=' stop (rest.drop name.width)
  let value ← expr stop (rest.drop (name.width + 1))
  return ⟨(ty.value, name.value.text, value.value), ty.width + name.width + 1 + value.width⟩

/-- Take a name and the value assigned to it. -/
def assignment (stop : Span) (tokens : List Token) : Except Fault (Taken (String × Expr)) := do
  let name ← name stop tokens
  let value ← assigned stop (tokens.drop name.width)
  return ⟨(name.value.text, value.value), name.width + value.width⟩

/-- The counter of a loop with the word after it, if there is one. -/
def counter? : List Token → Option String
  | .ident name _ :: .ident "in" _ :: _ => if Word.isReserved name then none else some name
  | _ => none

mutual

/-- Take a statement. -/
def stmt (stop : Span) (tokens : List Token) : Except Fault (Taken Expr) :=
  match tokens with
  | .ident "let" _ :: rest => do
    let found ← binding stop rest
    let (ty, name, value) := found.value
    return ⟨.constant ty name value, found.width + 1⟩
  | .ident "mut" _ :: rest => do
    let found ← binding stop rest
    let (ty, name, value) := found.value
    return ⟨.mutable ty name value, found.width + 1⟩
  | .ident "set" _ :: rest => do
    let found ← assignment stop rest
    return ⟨.update found.value.1 found.value.2, found.width + 1⟩
  | .ident "out" _ :: rest => do
    let found ← assignment stop rest
    return ⟨.output found.value.1 found.value.2, found.width + 1⟩
  | .ident "if" _ :: rest => do
    let found ← branch stop rest
    return ⟨found.value, found.width + 1⟩
  | .ident "for" _ :: rest => do
    let counter := counter? rest
    let before := if counter.isSome then 2 else 0
    let bound ← expr stop (rest.drop before)
    let _ ← word "do" stop (rest.drop (before + bound.width))
    let body ← braced stop (rest.drop (before + bound.width + 1))
    return ⟨.loop bound.value counter body, before + bound.width + 3⟩
  | tokens => if startsComment tokens then comment stop tokens else expr stop tokens
termination_by 8 * sizeOf tokens + 1
decreasing_by
  · apply rank_lt_of_lt (by decide)
    simp only [List.cons.sizeOf_spec]
    omega
  · apply rank_lt_of_lt (by decide)
    refine Nat.lt_of_le_of_lt (sizeOf_drop_le ..) ?_
    simp only [List.cons.sizeOf_spec]
    omega

/-- Take a branch after its first word: a condition, a block, and perhaps a second block or a
further branch. -/
def branch (stop : Span) (tokens : List Token) : Except Fault (Taken Expr) := do
  let cond ← expr stop tokens
  let yes ← braced stop (tokens.drop cond.width)
  match h : tokens.drop (cond.width + 1) with
  | .ident "else" _ :: .ident "if" _ :: rest =>
    let no ← branch stop rest
    return ⟨.branch cond.value yes (Block.ofStmts [no.value]), cond.width + 3 + no.width⟩
  | .ident "else" _ :: rest =>
    let no ← braced stop rest
    return ⟨.branch cond.value yes no, cond.width + 3⟩
  | _ => return ⟨.branch cond.value yes Block.empty, cond.width + 1⟩
termination_by 8 * sizeOf tokens + 1
decreasing_by
  · exact rank_lt_of_le (sizeOf_drop_le ..) (by decide)
  · exact rank_lt_of_lt (by decide) (sizeOf_lt_of_drop_eq_cons h 1)
  · exact rank_lt_of_lt (by decide) (sizeOf_lt_of_drop_eq_cons h 0)

/-- The block that a group in braces holds. -/
def braced (stop : Span) (tokens : List Token) : Except Fault Block :=
  match tokens with
  | .group .brace content span :: _ => do
    return Block.ofStmts (← stmts span.last content)
  | tokens => .error (.missing stop tokens (.group .brace))
termination_by 8 * sizeOf tokens + 0
decreasing_by
  apply rank_lt_of_lt (by decide)
  simp only [List.cons.sizeOf_spec, Token.group.sizeOf_spec]
  omega

/-- All statements up to the end of the tokens. -/
def stmts (stop : Span) (tokens : List Token) : Except Fault (List Expr) :=
  match tokens with
  | [] => .ok []
  | token :: rest =>
    if startsMark ';' (token :: rest) then stmts stop rest
    else do
      let first ← stmt stop (token :: rest)
      return first.value :: (← stmts stop (rest.drop (first.width - 1)))
termination_by 8 * sizeOf tokens + 2
decreasing_by
  · apply rank_lt_of_lt (by decide)
    simp only [List.cons.sizeOf_spec]
    omega
  · exact rank_lt_of_le (Nat.le_refl _) (by decide)
  · apply rank_lt_of_lt (by decide)
    have := sizeOf_drop_le rest (first.width - 1)
    simp only [List.cons.sizeOf_spec]
    omega

end

/-- The block of all statements up to the end of the tokens. -/
def block (stop : Span) (tokens : List Token) : Except Fault Block := do
  return Block.ofStmts (← stmts stop tokens)

/-! ## Whole texts -/

/-- Check that a reader has taken all tokens of a text.  What stands in a comment marker after its
text is blamed before what is left at the end. -/
def complete {α : Type} (tokens : List Token) (found : Taken α) : Except Fault α :=
  match strays (tokens.take found.width) with
  | some span => .error ⟨.leftOver, span⟩
  | none =>
    match tokens.drop found.width with
    | [] => .ok found.value
    | token :: _ => .error ⟨.leftOver, token.span⟩

/-- Read all tokens of a text with a reader. -/
def readAll {α : Type} (reader : Span → List Token → Except Fault (Taken α))
    (tokens : List Token) : Except Fault α := do
  complete tokens (← reader .origin tokens)

/-- Read all tokens of a text as a block. -/
def readBlock (tokens : List Token) : Except Fault Block := do
  complete tokens ⟨← block .origin tokens, tokens.length⟩

end Grammar

end ShaderLang
