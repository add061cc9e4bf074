import ShaderLang.Proofs.Assembly
import ShaderLang.Proofs.Spelling
import ShaderLang.Target.Expr

/-!
# Generated expressions read back

The text that is written for an expression is read as that expression, whatever the binding
strengths of the operators are: an operand that is an operation stands in parentheses.  The text of
each construct is put together from the texts of its parts as its tokens are from theirs, and the
result follows by induction on the expression.

Main results:

- Theorem `lexes_symbol`: the symbol of an operator between blanks is read as the operator.
- Theorem `exists_writes`: a plain expression has a text, which is read as tokens of the expression.
- Theorem `readAll_value`: the text of a plain expression reads back as the expression.
-/

namespace ShaderLang

/-! ## Plain expressions -/

namespace Expr

/-- A name that a declaration may use. -/
def IsPlainName (name : String) : Prop :=
  Lexeme.isIdentifier name.toList = true ∧ Word.isReserved name = false

mutual

/-- An expression of non-negative integers of 64 bits, truth values, variables, calls, operations,
fields and indices. -/
def IsPlain : Expr → Prop
  | int value => 0 ≤ value ∧ value < 2 ^ 63
  | bool _ => True
  | ref name => IsPlainName name
  | call name args => IsPlainName name ∧ ArePlain args
  | binary _ lhs rhs => lhs.IsPlain ∧ rhs.IsPlain
  | field base name => base.IsPlain ∧ Lexeme.isIdentifier name.toList = true
  | index base position => base.IsPlain ∧ position.IsPlain
  | _ => False

/-- All of some expressions are plain. -/
def ArePlain : List Expr → Prop
  | [] => True
  | e :: es => e.IsPlain ∧ ArePlain es

end

end Expr

namespace Target

open Lexeme ShaderLang.Grammar

/-- A text is written for an expression, and is read as tokens of the expression; so is the text
that stands for it as an operand. -/
structure Writes (e : Expr) (text : String) : Prop where
  value : value e = .ok text
  whole : Lexes Ends text.toList (Spells e)
  operand : Lexes Ends (operand e text).toList (SpellsOperand e)

/-- Texts are written for expressions, and with commas between them they are read as tokens of the
expressions. -/
structure WritesAll (es : List Expr) (texts : List String) : Prop where
  values : values es = .ok texts
  reads : Lexes Ends (listed texts).toList (SpellsAll es)

/-! ## Operators -/

/-- A blank follows. -/
def Spaced (rest : List Char) : Prop :=
  ∃ more, rest = ' ' :: more

/-- A mark before a blank is read as one that no mark follows. -/
theorem lexes_mark_spaced {c : Char} (hc : c ∈ plainMarks) :
    Lexes Spaced [c] fun tokens => ∃ span, tokens = [.punct c false span] := by
  have hblank : ' ' ∉ marks := by decide
  refine lexes_mark hc ?_
  rintro _ ⟨more, rfl⟩
  refine ⟨?_, fun _ => rfl⟩
  simp [Lexeme.startsMark, hblank]

/-- A mark and a blank are read as the mark. -/
theorem lexes_mark_blank {c : Char} (hc : c ∈ plainMarks) :
    Lexes (fun _ => True) [c, ' '] fun tokens => ∃ span, tokens = [.punct c false span] := by
  refine (lexes_mark_spaced hc).append lexes_space (fun rest _ => ⟨rest, rfl⟩) ?_
  rintro tokens _ hspan rfl
  rwa [List.append_nil]

/-- A mark before a blank is read as an operator of one character. -/
theorem lexes_single {op : Operator} {c : Char} (hc : c ∈ plainMarks) (hpoint : c ≠ '.')
    (hop : spelled? c none = some (op, false)) : Lexes Spaced [c] (SpellsOperator op) := by
  have hsign : c ≠ '#' := by
    rintro rfl
    cases hop
  refine (lexes_mark_spaced hc).imp ?_
  rintro _ ⟨span, rfl⟩
  refine ⟨⟨c, false, span, [], rfl, hsign, hpoint⟩, strays_punct hsign false span, fun after => ?_⟩
  have hjoined : joined? false after = none := by
    unfold joined?
    split <;> rfl
  rw [List.singleton_append, Grammar.operator?, hjoined, hop]
  rfl

/-- Two marks before a blank are read as an operator of two characters. -/
theorem lexes_pair {op : Operator} {c d : Char} (hc : c ∈ plainMarks) (hslash : c ≠ '/')
    (hpoint : c ≠ '.') (hd : d ∈ ['&', '|', '=']) (hop : spelled? c (some d) = some (op, true)) :
    Lexes Spaced [c, d] (SpellsOperator op) := by
  have hmarks : (['&', '|', '='].all fun d => plainMarks.contains d && marks.contains d &&
      d != '/' && d != '#') = true := by decide
  obtain ⟨⟨⟨hplain, hmark⟩, hslash'⟩, hsign'⟩ :
      ((d ∈ plainMarks ∧ d ∈ marks) ∧ d ≠ '/') ∧ d ≠ '#' := by
    simpa using List.all_eq_true.mp hmarks d hd
  have hsign : c ≠ '#' := by
    rintro rfl
    cases hop
  have hfirst : Lexes (fun rest => ∃ more, rest = d :: more) [c] fun tokens =>
      ∃ span, tokens = [.punct c true span] := by
    refine lexes_mark hc ?_
    rintro _ ⟨more, rfl⟩
    exact ⟨by simp [Lexeme.startsMark, hmark, hslash'], fun h => absurd h hslash⟩
  refine hfirst.append (lexes_mark_spaced hplain) (fun rest _ => ⟨rest, rfl⟩) ?_
  rintro _ _ ⟨first, rfl⟩ ⟨second, rfl⟩
  refine ⟨⟨c, true, first, _, rfl, hsign, hpoint⟩, fun after => ?_, fun after => ?_⟩
  · rw [List.append_assoc, List.singleton_append, List.singleton_append, strays_punct hsign,
      strays_punct hsign']
  · rw [List.append_assoc, List.singleton_append, List.singleton_append, Grammar.operator?, joined?,
      if_pos rfl, hop]
    rfl

/-- The symbol of an operator between blanks is read as the operator. -/
theorem lexes_symbol (op : Operator) :
    Lexes (fun _ => True) (' ' :: (op.symbol.toList ++ [' '])) (SpellsOperator op) := by
  have hsymbol : Lexes Spaced op.symbol.toList (SpellsOperator op) := by
    cases op with
    | and => exact lexes_pair (by decide) (by decide) (by decide) (by decide) rfl
    | or => exact lexes_pair (by decide) (by decide) (by decide) (by decide) rfl
    | eq => exact lexes_pair (by decide) (by decide) (by decide) (by decide) rfl
    | neq => exact lexes_pair (by decide) (by decide) (by decide) (by decide) rfl
    | gte => exact lexes_pair (by decide) (by decide) (by decide) (by decide) rfl
    | lte => exact lexes_pair (by decide) (by decide) (by decide) (by decide) rfl
    | _ => exact lexes_single (by decide) (by decide) rfl
  have hspaced : Lexes (fun _ => True) (op.symbol.toList ++ [' ']) (SpellsOperator op) := by
    refine hsymbol.append lexes_space (fun rest _ => ⟨rest, rfl⟩) ?_
    rintro tokens _ htokens rfl
    rwa [List.append_nil]
  refine (@lexes_space fun _ => True).append hspaced (fun _ _ => trivial) ?_
  rintro _ tokens rfl htokens
  exact htokens

/-! ## Texts of expressions -/

/-- What is no operation stands as an operand without parentheses. -/
theorem Writes.of_operand {e : Expr} {text : String} (hvalue : Target.value e = .ok text)
    (hplain : ∀ op lhs rhs, e ≠ .binary op lhs rhs)
    (h : Lexes Ends text.toList (SpellsOperand e)) : Writes e text := by
  refine ⟨hvalue, h.imp fun tokens htokens => htokens.spells, ?_⟩
  have hoperand : Target.operand e text = text := by
    unfold Target.operand
    split
    · exact absurd rfl (hplain _ _ _)
    · rfl
  rwa [hoperand]

/-- An operation stands as an operand in parentheses. -/
theorem Writes.of_binary {op : Operator} {lhs rhs : Expr} {text : String}
    (hvalue : Target.value (.binary op lhs rhs) = .ok text)
    (h : Lexes Ends text.toList (Spells (.binary op lhs rhs))) :
    Writes (.binary op lhs rhs) text := by
  refine ⟨hvalue, h, ?_⟩
  have hoperand : (Target.operand (.binary op lhs rhs) text).toList =
      '(' :: text.toList ++ [')'] := by
    simp [Target.operand]
  rw [hoperand]
  exact h.group rfl rfl (fun rest => .mark rest (by decide)) fun tokens span htokens =>
    SpellsOperand.paren htokens span

/-- The text of a number. -/
theorem writes_int {n : Nat} (hn : n < 2 ^ 63) : Writes (.int n) (toString n) := by
  refine Writes.of_operand (by rw [value]; rfl) (by simp) ?_
  rw [Nat.toString_eq_repr, Nat.toList_repr]
  refine (lexes_digits n).imp ?_
  rintro _ ⟨span, rfl⟩
  exact SpellsOperand.int hn span

/-- The text of a truth value. -/
theorem writes_bool (b : Bool) : Writes (.bool b) (toString b) := by
  have hword : isIdentifier (toString b).toList = true := by
    cases b with
    | false => decide
    | true => decide
  refine Writes.of_operand (by rw [value]) (by simp) ((lexes_identifier hword).imp ?_)
  rintro _ ⟨span, rfl⟩
  exact SpellsOperand.bool b span

/-- The text of a variable. -/
theorem writes_ref {name : String} (h : Expr.IsPlainName name) : Writes (.ref name) name := by
  refine Writes.of_operand (by rw [value]) (by simp) ((lexes_identifier h.1).imp ?_)
  rintro _ ⟨span, rfl⟩
  exact SpellsOperand.ref h.2 span

/-- The text of a call. -/
theorem writes_call {name : String} {args : List Expr} {texts : List String}
    (h : Expr.IsPlainName name) (hargs : WritesAll args texts) :
    Writes (.call name args) (applied name texts) := by
  refine Writes.of_operand (by rw [value, hargs.values]; rfl) (by simp) ?_
  have htext : (applied name texts).toList =
      name.toList ++ ('(' :: (listed texts).toList ++ [')']) := by
    simp [applied]
  have hgroup : Lexes Ends ('(' :: (listed texts).toList ++ [')']) fun tokens =>
      ∃ content span, SpellsAll args content ∧ tokens = [.group .paren content span] :=
    hargs.reads.group rfl rfl (fun rest => .mark rest (by decide)) fun tokens span htokens =>
      ⟨tokens, span, htokens, rfl⟩
  rw [htext]
  refine (lexes_identifier h.1).append hgroup (fun rest _ => .mark _ (by decide)) ?_
  rintro _ _ ⟨place, rfl⟩ ⟨content, span, hcontent, rfl⟩
  exact SpellsOperand.call h.2 hcontent place span

/-- The text of an operation. -/
theorem writes_binary {op : Operator} {lhs rhs : Expr} {left right : String}
    (hlhs : Writes lhs left) (hrhs : Writes rhs right) :
    Writes (.binary op lhs rhs)
      (operand lhs left ++ " " ++ op.symbol ++ " " ++ operand rhs right) := by
  refine Writes.of_binary (by rw [value, hlhs.value, hrhs.value]; rfl) ?_
  have htext : (operand lhs left ++ " " ++ op.symbol ++ " " ++ operand rhs right).toList =
      (operand lhs left).toList ++
        (' ' :: (op.symbol.toList ++ [' ']) ++ (operand rhs right).toList) := by
    simp
  rw [htext]
  have hmiddle : Lexes Ends (' ' :: (op.symbol.toList ++ [' ']) ++ (operand rhs right).toList)
      fun tokens => ∃ middle right, SpellsOperator op middle ∧ SpellsOperand rhs right ∧
        tokens = middle ++ right :=
    (lexes_symbol op).append hrhs.operand (fun _ _ => trivial) fun middle right hmiddle hright =>
      ⟨middle, right, hmiddle, hright, rfl⟩
  refine hlhs.operand.append hmiddle (fun rest _ => .mark _ (by decide)) ?_
  rintro left _ hleft ⟨middle, right, hmiddle, hright, rfl⟩
  exact Spells.binary hleft hmiddle hright

/-- The text of a field. -/
theorem writes_field {base : Expr} {name text : String} (h : Writes base text)
    (hname : isIdentifier name.toList = true) :
    Writes (.field base name) (operand base text ++ "." ++ name) := by
  refine Writes.of_operand (by rw [value, h.value]; rfl) (by simp) ?_
  obtain ⟨c, cs, hcs, hc, -⟩ := exists_of_isIdentifier hname
  have htext : (operand base text ++ "." ++ name).toList =
      (operand base text).toList ++ (['.'] ++ name.toList) := by
    simp
  have hpoint : Lexes (fun rest => ∃ more, rest = c :: more) ['.'] fun tokens =>
      ∃ point, tokens = [.punct '.' false point] := by
    refine lexes_mark (by decide) ?_
    rintro _ ⟨more, rfl⟩
    exact ⟨startsMark_eq_false (Text.isIdentContinue_of_isIdentStart hc) more, by simp⟩
  have hfield : Lexes Ends (['.'] ++ name.toList) fun tokens =>
      ∃ point place, tokens = [.punct '.' false point, .ident name place] := by
    refine hpoint.append (lexes_identifier hname) (fun rest _ => ⟨cs ++ rest, by rw [hcs]; rfl⟩) ?_
    rintro _ _ ⟨point, rfl⟩ ⟨place, rfl⟩
    exact ⟨point, place, rfl⟩
  rw [htext]
  refine h.operand.append hfield (fun rest _ => ?_) ?_
  · rw [hcs]
    exact .point (cs ++ rest) hc
  · rintro tokens _ htokens ⟨point, place, rfl⟩
    exact htokens.field name false point place

/-- The text of an index. -/
theorem writes_index {base position : Expr} {text inner : String} (h : Writes base text)
    (hposition : Writes position inner) :
    Writes (.index base position) (operand base text ++ "[" ++ inner ++ "]") := by
  refine Writes.of_operand (by rw [value, h.value, hposition.value]; rfl) (by simp) ?_
  have htext : (operand base text ++ "[" ++ inner ++ "]").toList =
      (operand base text).toList ++ ('[' :: inner.toList ++ [']']) := by
    simp
  have hgroup : Lexes Ends ('[' :: inner.toList ++ [']']) fun tokens =>
      ∃ content span, Spells position content ∧ tokens = [.group .bracket content span] :=
    hposition.whole.group rfl rfl (fun rest => .mark rest (by decide)) fun tokens span htokens =>
      ⟨tokens, span, htokens, rfl⟩
  rw [htext]
  refine h.operand.append hgroup (fun rest _ => .mark _ (by decide)) ?_
  rintro tokens _ htokens ⟨content, span, hcontent, rfl⟩
  exact htokens.index hcontent span

/-- The texts of no expressions. -/
theorem writesAll_nil : WritesAll [] [] :=
  ⟨by rw [values], Lexes.nil SpellsAll.nil⟩

/-- The texts of an expression and of further ones. -/
theorem writesAll_cons {e : Expr} {es : List Expr} {text : String} {texts : List String}
    (h : Writes e text) (hmore : WritesAll es texts) : WritesAll (e :: es) (text :: texts) := by
  refine ⟨by rw [values, h.value, hmore.values]; rfl, ?_⟩
  cases texts with
  | nil =>
    obtain rfl : es = [] := by
      cases es with
      | nil => rfl
      | cons e' es =>
        have hvalues := hmore.values
        rw [values] at hvalues
        obtain ⟨_, -, hvalues⟩ := bind_eq_ok.mp hvalues
        obtain ⟨_, -, hvalues⟩ := bind_eq_ok.mp hvalues
        cases hvalues
    rw [listed, String.intercalate_singleton]
    exact h.whole.imp fun tokens htokens => SpellsAll.singleton htokens
  | cons second rest =>
    have htext : (listed (text :: second :: rest)).toList =
        text.toList ++ ([',', ' '] ++ (listed (second :: rest)).toList) := by
      simp [listed, String.intercalate_cons_cons]
    have hothers : Lexes Ends ([',', ' '] ++ (listed (second :: rest)).toList) fun tokens =>
        ∃ span others, SpellsAll es others ∧ tokens = .punct ',' false span :: others := by
      refine (@lexes_mark_blank ',' (by decide)).append hmore.reads (fun _ _ => trivial) ?_
      rintro _ others ⟨span, rfl⟩ hothers
      exact ⟨span, others, hothers, rfl⟩
    rw [htext]
    refine h.whole.append hothers (fun more _ => .mark _ (by decide)) ?_
    rintro tokens _ htokens ⟨span, others, hothers, rfl⟩
    exact SpellsAll.cons htokens hothers false span

mutual

/-- A plain expression has a text, which is read as tokens of the expression. -/
theorem exists_writes : ∀ e : Expr, e.IsPlain → ∃ text, Writes e text
  | .int value, h => by
    obtain ⟨n, rfl⟩ := Int.eq_ofNat_of_zero_le h.1
    exact ⟨_, writes_int (by have := h.2; omega)⟩
  | .bool b, _ => ⟨_, writes_bool b⟩
  | .ref _, h => ⟨_, writes_ref h⟩
  | .call _ args, h => by
    obtain ⟨texts, hargs⟩ := exists_writesAll args h.2
    exact ⟨_, writes_call h.1 hargs⟩
  | .binary _ lhs rhs, h => by
    obtain ⟨left, hlhs⟩ := exists_writes lhs h.1
    obtain ⟨right, hrhs⟩ := exists_writes rhs h.2
    exact ⟨_, writes_binary hlhs hrhs⟩
  | .field base _, h => by
    obtain ⟨text, hbase⟩ := exists_writes base h.1
    exact ⟨_, writes_field hbase h.2⟩
  | .index base position, h => by
    obtain ⟨text, hbase⟩ := exists_writes base h.1
    obtain ⟨inner, hposition⟩ := exists_writes position h.2
    exact ⟨_, writes_index hbase hposition⟩

/-- Plain expressions have texts, which are read as tokens of the expressions. -/
theorem exists_writesAll : ∀ es : List Expr, Expr.ArePlain es → ∃ texts, WritesAll es texts
  | [], _ => ⟨_, writesAll_nil⟩
  | e :: es, h => by
    obtain ⟨text, htext⟩ := exists_writes e h.1
    obtain ⟨texts, htexts⟩ := exists_writesAll es h.2
    exact ⟨_, writesAll_cons htext htexts⟩

end

/-- The expression `(x + 2) * f(1, true).xy[i]`. -/
def nested : Expr :=
  .binary .mul (.binary .add (.ref "x") (.int 2))
    (.index (.field (.call "f" [.int 1, .bool true]) "xy") (.ref "i"))

/-- The text of a plain expression reads back as the expression, with the binding strengths of the
operators and with any others. -/
theorem readAll_value {e : Expr} (h : e.IsPlain) :
    ∃ text tokens, value e = .ok text ∧ tokenize text = .ok tokens ∧
      readAll expr tokens = .ok e ∧ ∀ strength, readAll (binary strength 0) tokens = .ok e := by
  obtain ⟨text, hwrites⟩ := exists_writes e h
  obtain ⟨tokens, htokens, htokenize⟩ := tokenize_of_lexes hwrites.whole .nil
  have hread : ∀ strength, readAll (binary strength 0) tokens = .ok e := fun strength =>
    readAll_binary_eq_ok_iff.mpr ⟨htokens.whole .origin, htokens.strays_eq_none⟩
  exact ⟨text, tokens, hwrites.value, htokenize, hread Operator.prec, hread⟩

/-- The text of an operation on an operation and a call reads back. -/
theorem readAll_value_nested :
    nested.IsPlain ∧ ∃ text tokens, value nested = .ok text ∧ tokenize text = .ok tokens ∧
      readAll expr tokens = .ok nested ∧
        ∀ strength, readAll (binary strength 0) tokens = .ok nested := by
  have hname : ∀ name ∈ ["x", "f", "i"], Expr.IsPlainName name := by
    unfold Expr.IsPlainName
    decide
  have hplain : nested.IsPlain :=
    ⟨⟨hname "x" (by simp), ⟨by decide, by decide⟩⟩,
      ⟨⟨hname "f" (by simp), ⟨by decide, by decide⟩, trivial, trivial⟩, by decide⟩,
      hname "i" (by simp)⟩
  exact ⟨hplain, readAll_value hplain⟩

end Target

end ShaderLang
