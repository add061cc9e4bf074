import ShaderLang.Proofs.Comments
import ShaderLang.Proofs.Outcome
import ShaderLang.Proofs.Placement
import ShaderLang.Target.Stage

/-!
# Slashes in generated code

No comment starts in generated code: names, types and numbers have no slash, and the only other
slash is the sign of a division, which stands between blanks.  A text is quiet if a blank stands
after each of its slashes; quiet texts one after the other are quiet.

Main results:

- Theorem `not_opens_of_isQuiet`: no comment starts in a quiet text, nor at its end.
- Theorem `value_quiet` and `effect_quiet`: expressions of names without slashes are quiet.
- Theorem `header_quiet` and `globalLine_quiet`: so are declarations.
-/

namespace ShaderLang

namespace Target

/-! ## Quiet texts -/

/-- A blank stands after each slash of a text. -/
def isQuiet : List Char → Bool
  | [] => true
  | c :: cs => (c != '/' || cs.head? == some ' ') && isQuiet cs

/-- A blank stands after each slash of a text. -/
def Quiet (text : String) : Prop :=
  isQuiet text.toList = true

instance (text : String) : Decidable (Quiet text) :=
  inferInstanceAs (Decidable (isQuiet text.toList = true))

/-- Quiet texts one after the other are quiet. -/
theorem isQuiet_append {cs more : List Char} (h : isQuiet cs = true) (hmore : isQuiet more = true) :
    isQuiet (cs ++ more) = true := by
  induction cs with
  | nil => exact hmore
  | cons c cs ih =>
    rw [isQuiet, Bool.and_eq_true, Bool.or_eq_true, beq_iff_eq] at h
    rw [List.cons_append, isQuiet, ih h.2, Bool.and_true, Bool.or_eq_true, beq_iff_eq]
    refine h.1.imp_right fun hblank => ?_
    rw [List.head?_append, hblank]
    rfl

/-- A text without slashes is quiet. -/
theorem isQuiet_of_not_mem {cs : List Char} (h : '/' ∉ cs) : isQuiet cs = true := by
  induction cs with
  | nil => rfl
  | cons c cs ih =>
    rw [List.mem_cons, not_or] at h
    rw [isQuiet, ih h.2, Bool.and_true, Bool.or_eq_true]
    exact .inl (by simpa using Ne.symm h.1)

/-- No comment starts in a quiet text, nor with a slash after it. -/
theorem not_opens_of_isQuiet {cs : List Char} (h : isQuiet cs = true) :
    ¬ Piece.Opens (cs ++ ['/']) := by
  induction cs with
  | nil =>
    have hnil : ¬ Piece.Opens [] := by simp [Piece.Opens]
    simp only [List.nil_append]
    rw [Piece.opens_cons_iff]
    simp [hnil]
  | cons c cs ih =>
    rw [isQuiet, Bool.and_eq_true, Bool.or_eq_true, beq_iff_eq] at h
    rw [List.cons_append, Piece.opens_cons_iff, not_or]
    refine ⟨?_, ih h.2⟩
    rintro ⟨rfl, hhead⟩
    have hblank : cs.head? = some ' ' := by simpa using h.1
    rw [List.head?_append, hblank] at hhead
    simp at hhead

theorem quiet_of_not_mem {text : String} (h : '/' ∉ text.toList) : Quiet text :=
  isQuiet_of_not_mem h

theorem Quiet.append {text more : String} (h : Quiet text) (hmore : Quiet more) :
    Quiet (text ++ more) := by
  rw [Quiet, String.toList_append]
  exact isQuiet_append h hmore

/-! ## Numbers -/

theorem slash_not_mem_toDigits (n : Nat) : '/' ∉ Nat.toDigits 10 n := by
  intro hmem
  exact absurd (Nat.isDigit_of_mem_toDigits (by decide) (by decide) hmem) (by decide)

theorem slash_not_mem_nat (n : Nat) : '/' ∉ (toString n).toList := by
  rw [Nat.toString_eq_repr, Nat.toList_repr]
  exact slash_not_mem_toDigits n

theorem slash_not_mem_int (n : Int) : '/' ∉ (toString n).toList := by
  cases n with
  | ofNat n => exact slash_not_mem_nat n
  | negSucc n =>
    have htext : toString (Int.negSucc n) = "-" ++ toString (n + 1) := rfl
    rw [htext, String.toList_append, List.mem_append, not_or]
    exact ⟨by decide, slash_not_mem_nat (n + 1)⟩

/-- No slash stands in a number with a point or an exponent. -/
theorem slash_not_mem_decimal (d : Decimal) : '/' ∉ Floating.standard.decimal d := by
  have hdigits := slash_not_mem_toDigits d.digits
  have htake : ∀ n, '/' ∉ (Nat.toDigits 10 d.digits).take n := fun n hmem =>
    hdigits (List.mem_of_mem_take hmem)
  have hdrop : ∀ n, '/' ∉ (Nat.toDigits 10 d.digits).drop n := fun n hmem =>
    hdigits (List.mem_of_mem_drop hmem)
  have htail : '/' ∉ (Nat.toDigits 10 d.digits).tail := fun hmem =>
    hdigits (List.mem_of_mem_tail hmem)
  have hmark : '/' ≠ Floating.standard.mark := by decide
  have hexponent : ∀ n : Int, '/' ∉ n.repr.toList := slash_not_mem_int
  unfold Floating.Layout.decimal
  dsimp only
  split
  · split
    · simp [hdigits]
    · split <;> simp [htake, hdrop]
  · split <;> simp [htake, htail, hmark, hexponent]

/-- No slash stands in a floating-point number. -/
theorem slash_not_mem_value (f : Floating.Format) (x : Floating.Value) :
    '/' ∉ (Floating.standard.text f x).toList := by
  have hsign : ∀ negative, '/' ∉ (Floating.Layout.text.sign negative).toList := by decide
  cases x with
  | nan => exact (by decide : '/' ∉ Floating.standard.nan.toList)
  | infinite negative =>
    rw [Floating.Layout.text, String.toList_append, List.mem_append, not_or]
    exact ⟨hsign negative, by decide⟩
  | finite negative significand exponent =>
    rw [Floating.Layout.text, String.toList_append, List.mem_append, not_or, String.toList_ofList]
    exact ⟨hsign negative, slash_not_mem_decimal _⟩

/-! ## Types -/

theorem typeName_quiet (ty : Ty) : Quiet (typeName ty) := by
  induction ty with
  | array item size ih =>
    exact ((ih.append (by decide)).append (quiet_of_not_mem (slash_not_mem_nat size))).append
      (by decide)
  | _ => decide

theorem declarator_quiet (ty : Ty) {name : String} (hname : '/' ∉ name.toList) :
    Quiet (declarator ty name) := by
  have hquiet := quiet_of_not_mem hname
  cases ty with
  | array item size =>
    exact (((((typeName_quiet item).append (by decide)).append hquiet).append (by decide)).append
      (quiet_of_not_mem (slash_not_mem_nat size))).append (by decide)
  | _ => exact ((typeName_quiet _).append (by decide)).append hquiet

/-! ## Values -/

theorem listed_quiet {texts : List String} (h : ∀ text ∈ texts, Quiet text) :
    Quiet (listed texts) := by
  induction texts with
  | nil => decide
  | cons text rest ih =>
    rw [List.forall_mem_cons] at h
    cases rest with
    | nil =>
      rw [listed, String.intercalate_singleton]
      exact h.1
    | cons second rest =>
      rw [listed, String.intercalate_cons_cons]
      exact (h.1.append (by decide)).append (ih h.2)

theorem applied_quiet {name : String} {args : List String} (hname : Quiet name)
    (hargs : ∀ text ∈ args, Quiet text) : Quiet (applied name args) :=
  ((hname.append (by decide)).append (listed_quiet hargs)).append (by decide)

theorem operand_quiet (e : Expr) {text : String} (h : Quiet text) : Quiet (operand e text) := by
  unfold operand
  split
  · exact ((by decide : Quiet "(").append h).append (by decide)
  · exact h

end Target

/-- No slash stands in a name or a field of a vocabulary. -/
structure Vocabulary.IsSlashless (allowed : Vocabulary) : Prop where
  name : ∀ {text}, allowed.name text → '/' ∉ text.toList
  field : ∀ {text}, allowed.field text → '/' ∉ text.toList

/-- No slash stands in a link. -/
theorem Vocabulary.IsSlashless.linked {allowed : Vocabulary} (h : allowed.IsSlashless) :
    allowed.linked.IsSlashless := by
  refine ⟨?_, h.field⟩
  rintro text (hname | ⟨i, rfl⟩)
  · exact h.name hname
  · rw [Word.link, String.toList_append, List.mem_append, not_or]
    exact ⟨by decide, Target.slash_not_mem_nat i⟩

namespace Target

open ShaderLang.Expr

variable {allowed : Vocabulary}

mutual

/-- The text of a value is quiet. -/
theorem value_quiet (hslashless : allowed.IsSlashless) (e : Expr) (h : e.IsValue allowed) :
    Gives Quiet (value e) := by
  cases e with
  | int n =>
    rw [value]
    exact Gives.ok (quiet_of_not_mem (slash_not_mem_int n))
  | bool b =>
    rw [value]
    exact Gives.ok (by cases b <;> decide)
  | float x =>
    rw [value]
    exact Gives.ok (quiet_of_not_mem (slash_not_mem_value _ _))
  | double x =>
    rw [value]
    exact Gives.ok (quiet_of_not_mem (slash_not_mem_value _ _))
  | vec2 x y =>
    rw [value]
    refine Gives.bind (value_quiet hslashless x h.1) fun left hleft => ?_
    refine Gives.bind (value_quiet hslashless y h.2) fun right hright => Gives.ok ?_
    exact applied_quiet (by decide) (by simp [hleft, hright])
  | vec3 x y z =>
    rw [value]
    refine Gives.bind (value_quiet hslashless x h.1) fun first hfirst => ?_
    refine Gives.bind (value_quiet hslashless y h.2.1) fun second hsecond => ?_
    refine Gives.bind (value_quiet hslashless z h.2.2) fun third hthird => Gives.ok ?_
    exact applied_quiet (by decide) (by simp [hfirst, hsecond, hthird])
  | vec4 x y z w =>
    rw [value]
    refine Gives.bind (value_quiet hslashless x h.1) fun first hfirst => ?_
    refine Gives.bind (value_quiet hslashless y h.2.1) fun second hsecond => ?_
    refine Gives.bind (value_quiet hslashless z h.2.2.1) fun third hthird => ?_
    refine Gives.bind (value_quiet hslashless w h.2.2.2) fun fourth hfourth => Gives.ok ?_
    exact applied_quiet (by decide) (by simp [hfirst, hsecond, hthird, hfourth])
  | mat4 items =>
    rw [value]
    exact Gives.error
  | ref name =>
    rw [value]
    exact Gives.ok (quiet_of_not_mem (hslashless.name h))
  | call name args =>
    rw [value]
    exact Gives.bind (values_quiet hslashless args h.2) fun texts htexts =>
      Gives.ok (applied_quiet (quiet_of_not_mem (hslashless.name h.1)) htexts)
  | binary op lhs rhs =>
    rw [value]
    refine Gives.bind (value_quiet hslashless lhs h.1) fun left hleft => ?_
    refine Gives.bind (value_quiet hslashless rhs h.2) fun right hright => Gives.ok ?_
    -- The sign of an operator is quiet only with the blank after it.
    have hsign : Quiet (op.symbol ++ " ") := by cases op <;> decide
    have hafter := (((operand_quiet lhs hleft).append (by decide : Quiet " ")).append hsign).append
      (operand_quiet rhs hright)
    simpa only [String.append_assoc] using hafter
  | field base name =>
    rw [value]
    exact Gives.bind (value_quiet hslashless base h.1) fun text htext =>
      Gives.ok (((operand_quiet base htext).append (by decide)).append
        (quiet_of_not_mem (hslashless.field h.2)))
  | index base position =>
    rw [value]
    refine Gives.bind (value_quiet hslashless base h.1) fun text htext => ?_
    exact Gives.bind (value_quiet hslashless position h.2) fun place hplace =>
      Gives.ok ((((operand_quiet base htext).append (by decide)).append hplace).append (by decide))
  | array items =>
    rw [value]
    exact Gives.bind (values_quiet hslashless items h) fun texts htexts =>
      Gives.ok (((by decide : Quiet "\x7b").append (listed_quiet htexts)).append (by decide))
  | _ => exact h.elim

/-- The texts of values are quiet. -/
theorem values_quiet (hslashless : allowed.IsSlashless) (es : List Expr)
    (h : AreValues allowed es) :
    Gives (fun texts => ∀ text ∈ texts, Quiet text) (values es) := by
  cases es with
  | nil => exact Gives.ok (by simp)
  | cons e es =>
    rw [values]
    refine Gives.bind (value_quiet hslashless e h.1) fun text htext => ?_
    exact Gives.bind (values_quiet hslashless es h.2) fun texts htexts =>
      Gives.ok (List.forall_mem_cons.mpr ⟨htext, htexts⟩)

end

/-- The text of a statement that stands on its own is quiet. -/
theorem effect_quiet (hslashless : allowed.IsSlashless) {e : Expr} (h : e.IsStmt allowed) :
    Gives Quiet (effect e) := by
  cases e with
  | mutable ty name e | constant ty name e =>
    rw [effect]
    exact Gives.bind (value_quiet hslashless e h.2) fun text htext =>
      Gives.ok (((declarator_quiet ty (hslashless.name h.1)).append (by decide)).append htext)
  | update name e | output name e =>
    rw [effect]
    exact Gives.bind (value_quiet hslashless e h.2) fun text htext =>
      Gives.ok (((quiet_of_not_mem (hslashless.name h.1)).append (by decide)).append htext)
  | uninit ty name =>
    rw [effect]
    exact Gives.ok (declarator_quiet ty (hslashless.name h))
  | call name args =>
    rw [effect]
    exact value_quiet hslashless (.call name args) h
  | _ =>
    rw [effect]
    · exact Gives.error
    all_goals intros; contradiction

/-! ## Declarations -/

/-- The declaration of a global variable is quiet. -/
theorem globalLine_quiet {global : Global} (hname : '/' ∉ global.name.toList) :
    Quiet (globalLine global) := by
  have hkeyword : Quiet global.qualifier.keyword := by cases global.qualifier <;> decide
  exact ((hkeyword.append (by decide)).append (declarator_quiet global.ty hname)).append (by decide)

/-- The header of a function is quiet. -/
theorem header_quiet {func : Func} (hname : '/' ∉ func.name.toList)
    (hparams : ∀ param ∈ func.params, '/' ∉ param.1.toList) : Quiet (header func) := by
  have hresult : Quiet ((func.result.map typeName).getD "void") := by
    cases func.result with
    | none => decide
    | some ty => exact typeName_quiet ty
  refine (hresult.append (by decide)).append (applied_quiet (quiet_of_not_mem hname) ?_)
  intro text htext
  obtain ⟨param, hparam, rfl⟩ := List.mem_map.mp htext
  exact declarator_quiet param.2 (hparams param hparam)

end Target

end ShaderLang
