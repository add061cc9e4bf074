import ShaderLang.Grammar.Declaration
import ShaderLang.Proofs.Outcome
import ShaderLang.Proofs.Placement

/-!
# What the readers give

The readers of expressions give values at every depth, and the readers of statements give
statements, so no accepted text spells a misplaced node.  All names in what they give are names that
may be used, and these names, the names of fields and the comments stand among the tokens.

Main results:

- Theorem `binary_gives`: a reader of an expression gives a value.
- Theorem `braced_gives`: a reader of a body gives a sealed block of statements.
- Theorem `isReadIn_of_suits`: the bodies of all declarations of a text are sealed blocks of
  statements, and have a vocabulary that suits the text.
-/

namespace ShaderLang

/-- A word can be used as a name. -/
def Word.Unreserved (name : String) : Prop :=
  Word.isReserved name = false

/-! ## The vocabulary of tokens -/

/-- A token stands among some tokens, at any depth. -/
inductive Token.Within (token : Token) : List Token → Prop where
  | head {rest : List Token} : Within token (token :: rest)
  | tail {first : Token} {rest : List Token} (h : Within token rest) : Within token (first :: rest)
  | inside {delim : Delim} {content rest : List Token} {span : Span} (h : Within token content) :
      Within token (.group delim content span :: rest)

namespace Vocabulary

open ShaderLang.Word

/-- A vocabulary has what some tokens spell: their names unless they are reserved, all of them as
fields, and the comments. -/
structure Suits (allowed : Vocabulary) (tokens : List Token) : Prop where
  name : ∀ {text : String} {span : Span}, Token.Within (.ident text span) tokens →
    Unreserved text → allowed.name text
  field : ∀ {text : String} {span : Span}, Token.Within (.ident text span) tokens →
    allowed.field text
  remark : ∀ {content : List Token} {span stop : Span} {e : Expr},
    Token.Within (.group .bracket content span) tokens → Grammar.commentText stop content = .ok e →
      allowed.remark e

variable {allowed : Vocabulary} {tokens rest : List Token}

/-- All names that are not reserved suit any tokens. -/
theorem suits_unreserved (tokens : List Token) : (ofNames Unreserved).Suits tokens :=
  ⟨fun _ h => h, fun _ => trivial, fun _ _ => trivial⟩

theorem Suits.tail {token : Token} (h : allowed.Suits (token :: rest)) : allowed.Suits rest :=
  ⟨fun hmem => h.name hmem.tail, fun hmem => h.field hmem.tail, fun hmem => h.remark hmem.tail⟩

theorem Suits.content {delim : Delim} {content : List Token} {span : Span}
    (h : allowed.Suits (.group delim content span :: rest)) : allowed.Suits content :=
  ⟨fun hmem => h.name hmem.inside, fun hmem => h.field hmem.inside,
    fun hmem => h.remark hmem.inside⟩

theorem Suits.drop (h : allowed.Suits tokens) (n : Nat) : allowed.Suits (tokens.drop n) := by
  induction n generalizing tokens with
  | zero => exact h
  | succ n ih =>
    cases tokens with
    | nil => exact h
    | cons token rest => exact ih h.tail

end Vocabulary

namespace Grammar

open ShaderLang.Expr ShaderLang.Word

variable {allowed : Vocabulary}

/-! ## Readers of single tokens -/

/-- A name that is read is one of the tokens and not reserved. -/
theorem name_gives (stop : Span) {tokens : List Token} (h : allowed.Suits tokens) :
    Gives (fun found => allowed.name found.value.text) (name stop tokens) := by
  unfold name
  split
  · exact Gives.error
  · split
    · exact Gives.error
    · rename_i hfree
      exact Gives.ok (h.name .head (by simpa [Unreserved] using hfree))
  · exact Gives.error

/-- A literal is a value. -/
theorem number_gives (negate : Bool) (constant : Constant) :
    Gives (IsValue allowed) (number negate constant) := by
  have hfinite : ∀ {finite : Prop} [Decidable finite] {e : Expr} {cause : Cause},
      e.IsValue allowed → Gives (IsValue allowed) (if finite then .ok e else .error cause) := by
    intro finite _ e cause he
    split
    · exact Gives.ok he
    · exact Gives.error
  unfold number
  split
  · simp only
    split
    · exact Gives.skip fun n => Gives.skip fun m => Gives.ok trivial
    · exact hfinite trivial
    · exact hfinite trivial
    · exact hfinite trivial
    · exact hfinite trivial
    · exact hfinite trivial
    · exact Gives.error
  · exact Gives.error

/-- A vector or matrix of values is a value. -/
theorem construct_gives {ty : Ty} {args : List Expr} {span : Span} (h : AreValues allowed args) :
    Gives (IsValue allowed) (construct ty args span) := by
  unfold construct
  split
  · exact Gives.ok ⟨h.1, h.2.1⟩
  · exact Gives.ok ⟨h.1, h.2.1, h.2.2.1⟩
  · exact Gives.ok ⟨h.1, h.2.1, h.2.2.1, h.2.2.2.1⟩
  · split
    · exact Gives.ok h
    · exact Gives.error
  · exact Gives.error

/-- A literal or the name of a variable is a value. -/
theorem atom_gives (stop : Span) {tokens : List Token} (h : allowed.Suits tokens) :
    Gives (fun found => IsValue allowed found.value) (atom stop tokens) := by
  have hblame : ∀ span width (x : Except Cause Expr), Gives (IsValue allowed) x →
      Gives (fun found => IsValue allowed found.value) (atom.blame span width x) := by
    intro span width x hx
    cases x with
    | error cause => exact Gives.error
    | ok e => exact Gives.ok (hx e rfl)
  unfold atom
  split
  · exact Gives.ok trivial
  · exact hblame _ _ _ (number_gives _ _)
  · split
    · exact hblame _ _ _ (number_gives _ _)
    · split
      · split
        · exact Gives.error
        · split
          · exact Gives.error
          · rename_i hfree
            exact Gives.ok (h.name .head (by simpa [Unreserved] using hfree))
      · exact Gives.error

/-! ## Readers of expressions

Each of them is right if the readers that it calls are.
-/

/-- A reader gives a value, with the number of tokens that it takes. -/
def TakesValue (allowed : Vocabulary) (x : Except Fault (Taken Expr)) : Prop :=
  Gives (fun found => IsValue allowed found.value) x

section Climbing

variable {strength : Operator → Nat} {least : Nat} {stop : Span} {tokens : List Token}

/-- Operands and operators make up a value. -/
theorem binary_step (h : allowed.Suits tokens)
    (hoperand : allowed.Suits tokens → TakesValue allowed (operand strength stop tokens))
    (hchain : ∀ lhs : Taken Expr, allowed.Suits (tokens.drop lhs.width) →
      lhs.value.IsValue allowed →
        TakesValue allowed (chain strength least stop lhs.value (tokens.drop lhs.width))) :
    TakesValue allowed (binary strength least stop tokens) := by
  rw [binary]
  exact Gives.bind (hoperand h) fun lhs hlhs =>
    Gives.bind (hchain lhs (h.drop _) hlhs) fun e he => Gives.ok he

/-- Operators join values to values. -/
theorem chain_step {lhs : Expr} (h : allowed.Suits tokens) (hlhs : lhs.IsValue allowed)
    (hbinary : ∀ (skipped : Nat) (token : Token) (rest : List Token),
      tokens.drop skipped = token :: rest → ∀ op : Taken Operator,
        allowed.Suits (rest.drop (op.width - 1)) →
        TakesValue allowed
          (binary strength (strength op.value + 1) stop (rest.drop (op.width - 1))))
    (hchain : ∀ (skipped : Nat) (token : Token) (rest : List Token),
      tokens.drop skipped = token :: rest → ∀ (op : Taken Operator) (rhs : Taken Expr),
        allowed.Suits (rest.drop (op.width - 1 + rhs.width)) →
        (Expr.binary op.value lhs rhs.value).IsValue allowed →
        TakesValue allowed (chain strength least stop (.binary op.value lhs rhs.value)
          (rest.drop (op.width - 1 + rhs.width)))) :
    TakesValue allowed (chain strength least stop lhs tokens) := by
  rw [chain]
  refine Gives.skip fun skipped => ?_
  split
  · exact Gives.ok hlhs
  · rename_i token rest hdrop
    have hrest : allowed.Suits rest := (hdrop ▸ h.drop skipped).tail
    split
    · exact Gives.ok hlhs
    · rename_i op hop
      split
      · exact Gives.ok hlhs
      · refine Gives.bind (hbinary skipped token rest hdrop op (hrest.drop _)) fun rhs hrhs => ?_
        exact Gives.bind (hchain skipped token rest hdrop op rhs (hrest.drop _) ⟨hlhs, hrhs⟩)
          fun e he => Gives.ok he

/-- A primary expression with indices and fields is a value. -/
theorem operand_step (h : allowed.Suits tokens)
    (hprimary : allowed.Suits tokens → TakesValue allowed (primary strength stop tokens))
    (haccesses : ∀ base : Taken Expr, allowed.Suits (tokens.drop base.width) →
      base.value.IsValue allowed →
        TakesValue allowed (accesses strength base.value (tokens.drop base.width))) :
    TakesValue allowed (operand strength stop tokens) := by
  rw [operand]
  exact Gives.bind (hprimary h) fun base hbase =>
    Gives.bind (haccesses base (h.drop _) hbase) fun e he => Gives.ok he

/-- A primary expression is a value. -/
theorem primary_step (h : allowed.Suits tokens)
    (hparen : ∀ (skipped : Nat) (content : List Token) (span : Span) (rest : List Token),
      tokens.drop skipped = .group .paren content span :: rest → allowed.Suits content →
        Gives (IsValue allowed) (parenthesized strength span.last content))
    (hbracket : ∀ (skipped : Nat) (content : List Token) (span : Span) (rest : List Token),
      tokens.drop skipped = .group .bracket content span :: rest → allowed.Suits content →
        Gives (AreValues allowed) (items strength span.last content))
    (hargs : ∀ (skipped : Nat) (text : String) (place : Span) (content : List Token) (span : Span)
      (rest : List Token),
      tokens.drop skipped = .ident text place :: .group .paren content span :: rest →
        allowed.Suits content → Gives (AreValues allowed) (items strength span.last content)) :
    TakesValue allowed (primary strength stop tokens) := by
  rw [primary]
  refine Gives.skip fun skipped => ?_
  have hsuits := h.drop skipped
  split
  · rename_i content span rest hdrop
    rw [hdrop] at hsuits
    exact Gives.bind (hparen skipped content span rest hdrop hsuits.content) fun e he => Gives.ok he
  · rename_i content span rest hdrop
    rw [hdrop] at hsuits
    exact Gives.bind (hbracket skipped content span rest hdrop hsuits.content) fun es hes =>
      Gives.ok hes
  · rename_i text place content span rest hdrop
    rw [hdrop] at hsuits
    have hitems := hargs skipped text place content span rest hdrop hsuits.tail.content
    split
    · exact Gives.bind hitems fun args hvalues =>
        Gives.bind (construct_gives hvalues) fun e he => Gives.ok he
    · split
      · exact Gives.bind (atom_gives _ hsuits) fun e he => Gives.ok he
      · rename_i hfree
        refine Gives.bind hitems fun args hvalues => Gives.ok ⟨hsuits.name .head ?_, hvalues⟩
        simpa [Unreserved] using hfree
  · exact Gives.bind (atom_gives _ hsuits) fun e he => Gives.ok he

/-- The prefix form is a value. -/
theorem prefixed_step (h : allowed.Suits tokens)
    (hlhs : ∀ op : Taken Operator, allowed.Suits (tokens.drop op.width) →
      TakesValue allowed (operand strength stop (tokens.drop op.width)))
    (hrhs : ∀ (op : Taken Operator) (lhs : Taken Expr),
      allowed.Suits (tokens.drop (op.width + lhs.width)) →
        TakesValue allowed (operand strength stop (tokens.drop (op.width + lhs.width)))) :
    Gives (IsValue allowed) (prefixed strength stop tokens) := by
  rw [prefixed]
  refine Gives.skip fun op => Gives.bind (hlhs op (h.drop _)) fun lhs hl => ?_
  exact Gives.bind (hrhs op lhs (h.drop _)) fun rhs hr => Gives.skip fun _ => Gives.ok ⟨hl, hr⟩

/-- A whole expression is a value. -/
theorem whole_step (hbinary : TakesValue allowed (binary strength 0 stop tokens)) :
    Gives (IsValue allowed) (whole strength stop tokens) := by
  rw [whole]
  exact Gives.bind hbinary fun e he => Gives.skip fun _ => Gives.ok he

/-- Expressions with commas between them are values. -/
theorem items_step {token : Token} {rest : List Token} (h : allowed.Suits (token :: rest))
    (hbinary : allowed.Suits (token :: rest) →
      TakesValue allowed (binary strength 0 stop (token :: rest)))
    (hitems : ∀ e : Taken Expr, allowed.Suits (rest.drop e.width) →
      Gives (AreValues allowed) (items strength stop (rest.drop e.width))) :
    Gives (AreValues allowed) (items strength stop (token :: rest)) := by
  rw [items]
  refine Gives.bind (hbinary h) fun e he => ?_
  split
  · exact Gives.ok ⟨he, trivial⟩
  · exact Gives.skip fun _ => Gives.bind (hitems e (h.tail.drop _)) fun es hes =>
      Gives.ok ⟨he, hes⟩

/-- A reader of an expression gives a value. -/
theorem binary_gives (strength : Operator → Nat) (least : Nat) (stop : Span) {tokens : List Token}
    (h : allowed.Suits tokens) : TakesValue allowed (binary strength least stop tokens) := by
  -- the induction follows the calls of the readers; `chain` and `accesses` are given a value first
  refine (binary.mutual_induct strength
    (fun least stop tokens => allowed.Suits tokens →
      TakesValue allowed (binary strength least stop tokens))
    (fun least stop lhs tokens => allowed.Suits tokens → lhs.IsValue allowed →
      TakesValue allowed (chain strength least stop lhs tokens))
    (fun stop tokens => allowed.Suits tokens → TakesValue allowed (operand strength stop tokens))
    (fun base tokens => allowed.Suits tokens → base.IsValue allowed →
      TakesValue allowed (accesses strength base tokens))
    (fun stop tokens => allowed.Suits tokens →
      Gives (IsValue allowed) (whole strength stop tokens))
    (fun stop tokens => allowed.Suits tokens → TakesValue allowed (primary strength stop tokens))
    (fun stop tokens => allowed.Suits tokens →
      Gives (AreValues allowed) (items strength stop tokens))
    (fun stop tokens => allowed.Suits tokens →
      Gives (IsValue allowed) (parenthesized strength stop tokens))
    (fun stop tokens => allowed.Suits tokens →
      Gives (IsValue allowed) (prefixed strength stop tokens))
    ?_ ?_ ?_ ?_ ?_ ?_ ?_ ?_ ?_ ?_ ?_ ?_ ?_ ?_ ?_).1 least stop tokens h
  case refine_1 => exact fun least stop tokens hoperand hchain h => binary_step h hoperand hchain
  case refine_2 =>
    exact fun least stop lhs tokens hbinary hchain h hlhs => chain_step h hlhs hbinary hchain
  case refine_3 =>
    exact fun stop tokens hprimary haccesses h => operand_step h hprimary haccesses
  case refine_4 =>
    intro base content span rest hwhole haccesses h hbase
    rw [accesses]
    exact Gives.bind (hwhole h.content) fun position hposition =>
      Gives.bind (haccesses position h.tail ⟨hbase, hposition⟩) fun e he => Gives.ok he
  case refine_5 =>
    intro base joint span name place rest haccesses h hbase
    rw [accesses]
    have hfield : (Expr.field base name).IsValue allowed := ⟨hbase, h.tail.field .head⟩
    exact Gives.bind (haccesses h.tail.tail hfield) fun e he => Gives.ok he
  case refine_6 =>
    intro base tokens hbracket hfield _ hbase
    rw [accesses]
    · exact Gives.ok hbase
    · exact hbracket
    · exact hfield
  case refine_7 => exact fun stop tokens hbinary h => whole_step (hbinary h)
  case refine_8 =>
    exact fun stop tokens hparen hbracket hargs h => primary_step h hparen hbracket hargs
  case refine_9 =>
    intro stop _
    rw [items]
    exact Gives.ok trivial
  case refine_10 => exact fun stop token rest hbinary hitems h => items_step h hbinary hitems
  case refine_11 =>
    intro stop tokens hop e hprefixed hgives h
    rw [parenthesized, if_pos hop, hprefixed]
    exact Gives.ok (hgives h e hprefixed)
  case refine_12 =>
    intro stop tokens hop fault hprefixed hnegated _ hwhole h
    rw [parenthesized, if_pos hop, hprefixed]
    simp only [hnegated, if_true]
    exact hwhole h
  case refine_13 =>
    intro stop tokens hop fault hprefixed hnegated _ _
    rw [parenthesized, if_pos hop, hprefixed]
    simp only [hnegated]
    exact Gives.error
  case refine_14 =>
    intro stop tokens hop hwhole h
    rw [parenthesized, if_neg hop]
    exact hwhole h
  case refine_15 => exact fun stop tokens hlhs hrhs h => prefixed_step h hlhs hrhs

end Climbing

/-! ## Readers of statements -/

/-- A reader gives a statement, with the number of tokens that it takes. -/
def TakesStmt (allowed : Vocabulary) (x : Except Fault (Taken Expr)) : Prop :=
  Gives (fun found => IsStmt allowed found.value) x

/-- A body: a sealed block of statements. -/
def IsBody (allowed : Vocabulary) (block : Block) : Prop :=
  AreStmts allowed block ∧ block.IsSealed

/-- The block of some statements is a body. -/
theorem isBody_ofStmts {es : List Expr} (h : AreStmts allowed es) :
    IsBody allowed (Block.ofStmts es) :=
  ⟨areStmts_ofStmts_iff.mpr h, Block.isSealed_ofStmts es⟩

section Statements

variable {tokens : List Token}

/-- An expression is a value. -/
theorem expr_gives (stop : Span) (h : allowed.Suits tokens) :
    TakesValue allowed (expr stop tokens) :=
  binary_gives Operator.prec 0 stop h

/-- A binding has a name that may be used and a value. -/
theorem binding_gives (stop : Span) (h : allowed.Suits tokens) :
    Gives (fun found => allowed.name found.value.2.1 ∧ IsValue allowed found.value.2.2)
      (binding stop tokens) := by
  unfold binding
  refine Gives.skip fun ty => Gives.bind (name_gives _ (h.drop _)) fun name hname => ?_
  exact Gives.skip fun _ => Gives.bind (expr_gives _ ((h.drop _).drop _)) fun value hvalue =>
    Gives.ok ⟨hname, hvalue⟩

/-- An assignment has a name that may be used and a value. -/
theorem assignment_gives (stop : Span) (h : allowed.Suits tokens) :
    Gives (fun found => allowed.name found.value.1 ∧ IsValue allowed found.value.2)
      (assignment stop tokens) := by
  have hassigned : ∀ tokens, allowed.Suits tokens → TakesValue allowed (assigned stop tokens) :=
    fun tokens h => Gives.bind (expr_gives _ (h.drop _)) fun value hvalue => Gives.ok hvalue
  unfold assignment
  refine Gives.bind (name_gives _ h) fun name hname => ?_
  exact Gives.bind (hassigned _ (h.drop _)) fun value hvalue => Gives.ok ⟨hname, hvalue⟩

/-- The name of a counter may be used. -/
theorem name_of_mem_counter? (h : allowed.Suits tokens) {name : String}
    (hname : name ∈ counter? tokens) : allowed.name name := by
  unfold counter? at hname
  split at hname
  · split at hname
    · cases hname
    · rename_i hfree
      cases hname
      exact h.name .head (by simpa [Unreserved] using hfree)
  · cases hname

/-- What the brackets of a marker hold: a word for the kind of the comment, an equals sign and a
text. -/
theorem commentText_eq_ok {stop : Span} {content : List Token} {e : Expr}
    (h : commentText stop content = .ok e) :
    ∃ kind place joint sign text span rest,
      content = .ident kind place :: .punct '=' joint sign :: .literal (.string text) span :: rest ∧
        (kind = "line" ∧ e = .lineComment (String.ofList text) ∨
          kind = "block" ∧ e = .blockComment (String.ofList text)) := by
  have htext : ∀ {isBlock : Bool}, (do
      let _ ← mark '=' stop (content.drop 1)
      let text ← text stop (content.drop 2)
      return if isBlock then Expr.blockComment (String.ofList text)
        else .lineComment (String.ofList text)) = .ok e →
      ∃ joint sign text span rest,
        content.drop 1 = .punct '=' joint sign :: .literal (.string text) span :: rest ∧
          e = if isBlock then .blockComment (String.ofList text)
            else .lineComment (String.ofList text) := by
    intro isBlock hread
    rcases bind_eq_ok.mp hread with ⟨found, hmark, hread⟩
    rcases bind_eq_ok.mp hread with ⟨text, htext, he⟩
    have hdrop : content.drop 2 = (content.drop 1).drop 1 := by rw [List.drop_drop]
    rw [hdrop] at htext
    unfold mark at hmark
    split at hmark
    · rename_i hstarts
      rcases startsMark_iff.mp hstarts with ⟨joint, sign, tail, htail⟩
      rw [htail, List.drop_one, List.tail_cons] at htext
      unfold Grammar.text at htext
      split at htext
      · cases htext
        cases he
        exact ⟨joint, sign, text, _, _, htail, rfl⟩
      · cases htext
    · cases hmark
  unfold commentText at h
  simp only at h
  split at h
  · rename_i hline
    rcases startsWord_iff.mp hline with ⟨place, tail, rfl⟩
    rcases bind_eq_ok.mp h with ⟨isBlock, hkind, hread⟩
    cases hkind
    rcases htext hread with ⟨joint, sign, text, span, rest, rfl, he⟩
    exact ⟨_, place, joint, sign, text, span, rest, rfl, .inl ⟨rfl, he⟩⟩
  · split at h
    · rename_i hblock
      rcases startsWord_iff.mp hblock with ⟨place, tail, rfl⟩
      rcases bind_eq_ok.mp h with ⟨isBlock, hkind, hread⟩
      cases hkind
      rcases htext hread with ⟨joint, sign, text, span, rest, rfl, he⟩
      exact ⟨_, place, joint, sign, text, span, rest, rfl, .inr ⟨rfl, he⟩⟩
    · cases h

/-- A comment is a statement. -/
theorem comment_gives (stop : Span) (h : allowed.Suits tokens) :
    TakesStmt allowed (comment stop tokens) := by
  unfold comment
  refine Gives.skip fun _ => ?_
  have hsuits := h.drop 1
  split
  · rename_i content span rest hdrop
    rw [hdrop] at hsuits
    have htext : Gives (IsStmt allowed) (commentText span.last content) := by
      intro e he
      have hremark := hsuits.remark .head he
      rcases commentText_eq_ok he with ⟨_, _, _, _, text, _, _, -, ⟨-, rfl⟩ | ⟨-, rfl⟩⟩
      · exact hremark
      · exact hremark
    exact Gives.bind htext fun e he => Gives.ok he
  · exact Gives.error

/-- A branch is a statement. -/
theorem branch_step {stop : Span} (h : allowed.Suits tokens)
    (hyes : ∀ cond : Taken Expr, allowed.Suits (tokens.drop cond.width) →
      Gives (IsBody allowed) (braced stop (tokens.drop cond.width)))
    (helse : ∀ (cond : Taken Expr) (span place : Span) (rest : List Token),
      tokens.drop (cond.width + 1) = .ident "else" span :: .ident "if" place :: rest →
        allowed.Suits rest → TakesStmt allowed (branch stop rest))
    (hno : ∀ (cond : Taken Expr) (span : Span) (rest : List Token),
      tokens.drop (cond.width + 1) = .ident "else" span :: rest → allowed.Suits rest →
        Gives (IsBody allowed) (braced stop rest)) :
    TakesStmt allowed (branch stop tokens) := by
  rw [branch]
  refine Gives.bind (expr_gives _ h) fun cond hcond =>
    Gives.bind (hyes cond (h.drop _)) fun yes hyes => ?_
  have hsuits := h.drop (cond.width + 1)
  split
  · rename_i span place rest hdrop
    rw [hdrop] at hsuits
    refine Gives.bind (helse cond span place rest hdrop hsuits.tail.tail) fun no hno => ?_
    obtain ⟨hstmts, hsealed⟩ := @isBody_ofStmts allowed [no.value] ⟨hno, trivial⟩
    exact Gives.ok ⟨hcond, hyes.1, hstmts, hsealed⟩
  · rename_i span rest _ hdrop
    rw [hdrop] at hsuits
    exact Gives.bind (hno cond span rest hdrop hsuits.tail) fun no hno =>
      Gives.ok ⟨hcond, hyes.1, hno.1, hno.2⟩
  · obtain ⟨hstmts, hsealed⟩ := @isBody_ofStmts allowed [] trivial
    exact Gives.ok ⟨hcond, hyes.1, hstmts, hsealed⟩

/-- The body of a branch, a loop, a function or a shader is a sealed block of statements. -/
theorem braced_gives (stop : Span) (h : allowed.Suits tokens) :
    Gives (IsBody allowed) (braced stop tokens) := by
  refine (stmt.mutual_induct
    (fun stop tokens => allowed.Suits tokens → TakesStmt allowed (stmt stop tokens))
    (fun stop tokens => allowed.Suits tokens → Gives (IsBody allowed) (braced stop tokens))
    (fun stop tokens => allowed.Suits tokens → Gives (AreStmts allowed) (stmts stop tokens))
    (fun stop tokens => allowed.Suits tokens → TakesStmt allowed (branch stop tokens))
    ?_ ?_ ?_ ?_ ?_ ?_ ?_ ?_ ?_ ?_ ?_ ?_ ?_ ?_).2.1 stop tokens h
  case refine_1 | refine_2 =>
    intro stop span rest h
    rw [stmt]
    exact Gives.bind (binding_gives _ h.tail) fun found hfound => Gives.ok hfound
  case refine_3 | refine_4 =>
    intro stop span rest h
    rw [stmt]
    exact Gives.bind (assignment_gives _ h.tail) fun found hfound => Gives.ok hfound
  case refine_5 =>
    intro stop span rest hbranch h
    rw [stmt]
    exact Gives.bind (hbranch h.tail) fun found hfound => Gives.ok hfound
  case refine_6 =>
    intro stop span rest counter before hbody h
    rw [stmt]
    refine Gives.bind (expr_gives _ (h.tail.drop _)) fun bound hbound => Gives.skip fun _ => ?_
    exact Gives.bind (hbody bound (h.tail.drop _)) fun body hbody =>
      Gives.ok ⟨hbound, fun name hname => name_of_mem_counter? h.tail hname, hbody.1⟩
  case refine_7 =>
    intro stop tokens _ _ _ _ _ _ hcomment h
    rw [stmt, if_pos hcomment]
    · exact comment_gives stop h
    all_goals assumption
  case refine_8 =>
    intro stop tokens _ _ _ _ _ _ hcomment h
    rw [stmt, if_neg hcomment]
    · exact fun found hfound => (expr_gives stop h found hfound).isStmt
    all_goals assumption
  case refine_9 =>
    intro stop content span tail hstmts h
    rw [braced]
    exact Gives.bind (hstmts h.content) fun es hes => Gives.ok (isBody_ofStmts hes)
  case refine_10 =>
    intro stop tokens hnone _
    rw [braced]
    · exact Gives.error
    · exact hnone
  case refine_11 =>
    intro stop _
    rw [stmts]
    exact Gives.ok trivial
  case refine_12 =>
    intro stop token rest hmark hstmts h
    rw [stmts, if_pos hmark]
    exact hstmts h.tail
  case refine_13 =>
    intro stop token rest hmark hstmt hstmts h
    rw [stmts, if_neg hmark]
    exact Gives.bind (hstmt h) fun e he =>
      Gives.bind (hstmts e (h.tail.drop _)) fun es hes => Gives.ok ⟨he, hes⟩
  case refine_14 => exact fun stop tokens hyes helse hno h => branch_step h hyes helse hno

end Statements

/-! ## Readers of declarations -/

section Declarations

variable {tokens : List Token}

/-- The name of a declaration may be used. -/
theorem declName_gives (stop : Span) (h : allowed.Suits tokens) :
    Gives (fun found => allowed.name found.value.text) (declName stop tokens) := by
  unfold declName
  refine Gives.bind (name_gives _ h) fun found hfound => ?_
  split
  · exact Gives.ok hfound
  · exact Gives.error

/-- Parameters have names that may be used. -/
def AreParams (allowed : Vocabulary) (params : List Param) : Prop :=
  ∀ param ∈ params, allowed.name param.name.text

/-- A parameter has a name that may be used. -/
theorem param_gives (stop : Span) (h : allowed.Suits tokens) :
    Gives (fun found => allowed.name found.value.name.text) (param stop tokens) :=
  Gives.skip fun _ => Gives.bind (name_gives _ (h.drop _)) fun _ hname => Gives.ok hname

/-- All parameters have names that may be used. -/
theorem params_gives (stop : Span) (h : allowed.Suits tokens) :
    Gives (AreParams allowed) (params stop tokens) := by
  induction tokens using params.induct with
  | case1 =>
    rw [params]
    exact Gives.ok (by simp [AreParams])
  | case2 token rest ih =>
    rw [params]
    refine Gives.bind (param_gives _ h) fun first hfirst => ?_
    split
    · exact Gives.ok (by simpa [AreParams] using hfirst)
    · refine Gives.skip fun _ => Gives.bind (ih first (h.tail.drop _)) fun more hmore => Gives.ok ?_
      simpa [AreParams] using ⟨hfirst, hmore⟩

/-- The parameters of a signature have names that may be used. -/
theorem signature_gives (stop : Span) (h : allowed.Suits tokens) :
    Gives (fun found => AreParams allowed found.value) (signature stop tokens) := by
  unfold signature
  split
  · exact Gives.bind (params_gives _ h.content) fun params hparams => Gives.ok hparams
  · refine Gives.bind (param_gives _ h) fun single hsingle => Gives.ok ?_
    simpa [AreParams] using hsingle

/-- The parameters of a function have names that may be used. -/
theorem funcSignature_gives (stop : Span) (h : allowed.Suits tokens) :
    Gives (fun found => AreParams allowed found.value.1) (funcSignature stop tokens) := by
  unfold funcSignature
  split
  · exact Gives.skip fun ty => Gives.ok (by simp [AreParams])
  · refine Gives.bind (signature_gives _ h) fun params hparams => ?_
    exact Gives.skip fun _ => Gives.ok hparams

/-- A declaration is as readers give it: its name and those of parameters, inputs and outputs may be
used, and bodies are sealed blocks of statements. -/
def IsReadIn (allowed : Vocabulary) : Declaration → Prop
  | .uniform _ name => allowed.name name.text
  | .function name params _ body =>
    AreParams allowed params ∧ IsBody allowed body ∧ allowed.name name.text
  | .shader _ _ inputs outputs body =>
    (∀ global ∈ inputs ++ outputs, allowed.name global.name) ∧ IsBody allowed body
  | .composition .. => True
  | .program name _ _ => allowed.name name.text

/-- A reader gives a declaration, with the number of tokens that it takes. -/
def TakesDeclaration (allowed : Vocabulary) (x : Except Fault (Taken Declaration)) : Prop :=
  Gives (fun found => IsReadIn allowed found.value) x

/-- A function is as readers give it. -/
theorem function_gives {name : Ident} (hname : allowed.name name.text) (stop : Span)
    (h : allowed.Suits tokens) : TakesDeclaration allowed (function name stop tokens) := by
  unfold function
  refine Gives.bind (funcSignature_gives _ h) fun signature hsignature => Gives.skip fun _ => ?_
  exact Gives.bind (braced_gives _ ((h.drop _).drop _)) fun body hbody =>
    Gives.ok ⟨hsignature, hbody, hname⟩

/-- A program is as readers give it. -/
theorem program_gives {name : Ident} (hname : allowed.name name.text) (stop : Span)
    (tokens : List Token) : TakesDeclaration allowed (program name stop tokens) :=
  Gives.skip fun _ => Gives.skip fun _ => Gives.skip fun _ => Gives.skip fun _ =>
    Gives.skip fun _ => Gives.ok hname

/-- A shader is as readers give it. -/
theorem shader_gives (stage : Stage) (stop : Span) (h : allowed.Suits tokens) :
    TakesDeclaration allowed (shader stage stop tokens) := by
  have hbody : ∀ name inputs outputs tokens, AreParams allowed inputs →
      AreParams allowed outputs → allowed.Suits tokens →
      TakesDeclaration allowed (shaderBody stage name (inputs.map Param.varying)
        (outputs.map Param.varying) stop tokens) := by
    intro name inputs outputs tokens hinputs houtputs h
    unfold shaderBody
    split
    · refine Gives.bind (braced_gives _ h) fun body hbody => Gives.ok ⟨?_, hbody⟩
      intro global hglobal
      rw [← List.map_append] at hglobal
      obtain ⟨param, hparam, rfl⟩ := List.mem_map.mp hglobal
      rcases List.mem_append.mp hparam with hparam | hparam
      · exact hinputs param hparam
      · exact houtputs param hparam
    · exact Gives.skip fun _ => Gives.skip fun _ => Gives.skip fun _ => Gives.ok trivial
  unfold shader
  refine Gives.skip fun name => Gives.skip fun _ => ?_
  refine Gives.bind (signature_gives _ (h.drop _)) fun inputs hinputs => Gives.skip fun _ => ?_
  refine Gives.bind (signature_gives _ ((h.drop _).drop _)) fun outputs houtputs =>
    Gives.skip fun _ => ?_
  exact Gives.bind (hbody _ _ _ _ hinputs houtputs (((h.drop _).drop _).drop _))
    fun found hfound => Gives.ok hfound

/-- A declaration is as readers give it. -/
theorem declaration_gives (stop : Span) (h : allowed.Suits tokens) :
    TakesDeclaration allowed (declaration stop tokens) := by
  unfold declaration
  split
  · exact Gives.skip fun _ => Gives.bind (declName_gives _ (h.tail.drop _)) fun _ hname =>
      Gives.ok hname
  · exact Gives.bind (shader_gives _ _ h.tail) fun found hfound => Gives.ok hfound
  · exact Gives.bind (shader_gives _ _ h.tail) fun found hfound => Gives.ok hfound
  · refine Gives.bind (declName_gives _ h) fun name hname => Gives.skip fun _ => ?_
    simp only
    split
    · exact Gives.bind (program_gives hname _ _) fun found hfound => Gives.ok hfound
    · exact Gives.bind (function_gives hname _ (h.drop _)) fun found hfound => Gives.ok hfound

/-- All declarations of a text are as readers give them. -/
theorem isReadIn_of_suits (h : allowed.Suits tokens) :
    ∀ declaration ∈ (declarations tokens).1, IsReadIn allowed declaration := by
  induction tokens using declarations.induct with
  | case1 => simp [declarations]
  | case2 token rest hmark ih =>
    rw [declarations, if_pos hmark]
    exact ih h.tail
  | case3 token rest hmark hcomment found hfound ih =>
    rw [declarations, if_neg hmark, if_pos hcomment, hfound]
    exact ih (h.tail.drop _)
  | case4 token rest hmark hcomment fault hfault =>
    rw [declarations, if_neg hmark, if_pos hcomment, hfault]
    simp
  | case5 token rest hmark hcomment found hfound _ _ _ ih =>
    rw [declarations, if_neg hmark, if_neg hcomment, hfound]
    exact List.forall_mem_cons.mpr ⟨declaration_gives _ h found hfound, ih (h.tail.drop _)⟩
  | case6 token rest hmark hcomment fault hfault =>
    rw [declarations, if_neg hmark, if_neg hcomment, hfault]
    simp

end Declarations

end Grammar

end ShaderLang
