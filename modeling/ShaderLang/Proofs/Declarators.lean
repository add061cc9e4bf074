import ShaderLang.Proofs.Lexing
import ShaderLang.Target.Ty

/-!
# Array types in the target

The target writes the sizes of nested arrays after the type of their items or after the name that
is declared.  In `T[a][b] name[c]` the sizes after the name are the outermost ones, and those after
the type follow from left to right: the name stands for `c` arrays of `a` arrays of `b` items.

The name of a type has the outermost size last, so it is read with all sizes in reverse order; in a
declaration the outermost size stands after the name, and the others are reversed.  A declaration
of arrays nested at most twice is read as its own type, and so is the name of arrays that are not
nested.

Main results:

- Theorem `sizes?_bracketed`: sizes in brackets are read from left to right.
- Theorem `toList_typeName`: the name of a type has the sizes in reverse order.
- Theorem `denoted?_typeName`, `declared?_declarator`: what the name of a type and a declaration are
  read as.
- Theorem `array_text_reads`: when they are read as the type they are made from.
-/

namespace ShaderLang

/-! ## Nested arrays -/

namespace Ty

/-- The type of the innermost items of nested arrays. -/
def base : Ty → Ty
  | array item _ => item.base
  | ty => ty

/-- The sizes of nested arrays, the outermost first. -/
def sizes : Ty → List Nat
  | array item size => size :: item.sizes
  | _ => []

/-- Nested arrays with some sizes, the outermost first. -/
def arrays (item : Ty) (sizes : List Nat) : Ty :=
  sizes.foldr (fun size item => array item size) item

/-- The innermost items are no arrays. -/
@[simp]
theorem sizes_base (ty : Ty) : ty.base.sizes = [] := by
  fun_induction base ty with
  | case1 item size ih => exact ih
  | case2 ty hitem =>
    rw [sizes]
    exact hitem

/-- The sizes of nested arrays come before those of their items. -/
@[simp]
theorem sizes_arrays (item : Ty) (sizes : List Nat) :
    (item.arrays sizes).sizes = sizes ++ item.sizes := by
  induction sizes with
  | nil => rfl
  | cons size sizes ih => exact congrArg (size :: ·) ih

/-- A type is the nested arrays of its innermost items with its sizes. -/
@[simp]
theorem arrays_base_sizes (ty : Ty) : ty.base.arrays ty.sizes = ty := by
  fun_induction base ty with
  | case1 item size ih => exact congrArg (array · size) ih
  | case2 ty hitem =>
    rw [sizes]
    · rfl
    · exact hitem

/-- Nested arrays of the innermost items of a type are that type exactly if they have its sizes. -/
theorem arrays_base_eq_iff {ty : Ty} {sizes : List Nat} :
    ty.base.arrays sizes = ty ↔ sizes = ty.sizes := by
  constructor
  · intro h
    have hsizes := congrArg Ty.sizes h
    rwa [sizes_arrays, sizes_base, List.append_nil] at hsizes
  · rintro rfl
    exact arrays_base_sizes ty

end Ty

namespace Target

open Text

/-! ## Reading types -/

/-- The types that have a name of their own in the target. -/
def named : List (String × Ty) :=
  [("int", .int), ("bool", .bool), ("float", .float), ("vec2", .vec2), ("vec3", .vec3),
   ("vec4", .vec4), ("mat4", .mat4)]

/-- The numbers of a text that is nothing but numbers, each in brackets. -/
def sizes? (text : List Char) : Option (List Nat) :=
  match text with
  | [] => some []
  | '[' :: rest =>
    match _h : rest.dropWhile Char.isDigit with
    | ']' :: more =>
      if rest.takeWhile Char.isDigit = [] then none
      else (sizes? more).map (Nat.ofDigitChars 10 (rest.takeWhile Char.isDigit) 0 :: ·)
    | _ => none
  | _ => none
termination_by text.length
decreasing_by
  have hlength := (List.dropWhile_suffix (p := Char.isDigit) (l := rest)).length_le
  rw [_h] at hlength
  simp only [List.length_cons] at hlength ⊢
  omega

/-- A word and the sizes after it. -/
def sized? (text : List Char) : Option (String × List Nat) :=
  (sizes? (text.dropWhile (· != '['))).map fun sizes =>
    (String.ofList (text.takeWhile (· != '[')), sizes)

/-- The type that a text names: of the sizes after the word the first is the outermost. -/
def denoted? (text : List Char) : Option Ty := do
  let (word, sizes) ← sized? text
  let item ← named.lookup word
  return item.arrays sizes

/-- The name that a text declares, and its type: the sizes after the name stand outside those after
the type. -/
def declared? (text : List Char) : Option (String × Ty) := do
  let (word, inner) ← sized? (text.takeWhile (· != ' '))
  let item ← named.lookup word
  let (name, outer) ← sized? ((text.dropWhile (· != ' ')).drop 1)
  if Lexeme.isIdentifier name.toList then return (name, item.arrays (outer ++ inner)) else none

/-! ## Texts with sizes -/

/-- Numbers, each in brackets. -/
def bracketed (sizes : List Nat) : List Char :=
  sizes.flatMap fun size => '[' :: (Nat.toDigits 10 size ++ [']'])

/-- Sizes in brackets one after the other. -/
theorem bracketed_append (sizes sizes' : List Nat) :
    bracketed (sizes ++ sizes') = bracketed sizes ++ bracketed sizes' := by
  simp [bracketed]

/-- Sizes in brackets are read from left to right. -/
theorem sizes?_bracketed (sizes : List Nat) : sizes? (bracketed sizes) = some sizes := by
  induction sizes with
  | nil => rw [bracketed, List.flatMap_nil, sizes?]
  | cons size sizes ih =>
    have hdigits := isDigit_of_toDigits size
    have hstop : ∀ c ∈ (']' :: bracketed sizes).head?, c.isDigit = false := by
      rintro c ⟨⟩
      rfl
    have htext : bracketed (size :: sizes) =
        '[' :: (Nat.toDigits 10 size ++ ']' :: bracketed sizes) := by
      simp [bracketed]
    rw [htext, sizes?]
    split
    · rename_i more hmore
      rw [dropWhile_append_stop hdigits hstop] at hmore
      obtain rfl : bracketed sizes = more := (List.cons.inj hmore).2
      rw [takeWhile_append_stop hdigits hstop, if_neg Nat.toDigits_ne_nil, ih,
        Nat.ofDigitChars_ten_toDigits]
      rfl
    · rename_i hnone
      exact (hnone _ (dropWhile_append_stop hdigits hstop)).elim

/-- No blank stands in sizes. -/
theorem space_not_mem_bracketed (sizes : List Nat) : ' ' ∉ bracketed sizes := by
  have hdigits : ∀ size, ' ' ∉ Nat.toDigits 10 size := by
    intro size hmem
    exact absurd (isDigit_of_toDigits size ' ' hmem) (by decide)
  simp [bracketed, hdigits]

/-- Characters of a text that does not hold a character are different from it. -/
theorem bne_of_not_mem {text : List Char} {d : Char} (h : d ∉ text) :
    ∀ c ∈ text, (c != d) = true := by
  intro c hc
  exact bne_iff_ne.mpr (ne_of_mem_of_not_mem hc h)

/-- A word is read with the sizes after it. -/
theorem sized?_append {word : String} (h : '[' ∉ word.toList) (sizes : List Nat) :
    sized? (word.toList ++ bracketed sizes) = some (word, sizes) := by
  have hword := bne_of_not_mem h
  have hstop : ∀ c ∈ (bracketed sizes).head?, (c != '[') = false := by
    cases sizes with
    | nil => simp [bracketed]
    | cons size sizes =>
      rintro c ⟨⟩
      rfl
  rw [sized?, takeWhile_append_stop hword hstop, dropWhile_append_stop hword hstop,
    sizes?_bracketed, String.ofList_toList]
  rfl

/-! ## Texts of types -/

/-- The innermost items of a type have a name of their own, without brackets and blanks. -/
theorem typeName_base (ty : Ty) :
    named.lookup (typeName ty.base) = some ty.base ∧ '[' ∉ (typeName ty.base).toList ∧
      ' ' ∉ (typeName ty.base).toList := by
  induction ty with
  | array item size ih => exact ih
  | _ => decide

/-- The name of a type has the sizes in reverse order. -/
theorem toList_typeName (ty : Ty) :
    (typeName ty).toList = (typeName ty.base).toList ++ bracketed ty.sizes.reverse := by
  induction ty with
  | array item size ih =>
    rw [Ty.sizes, List.reverse_cons, bracketed_append, ← List.append_assoc, Ty.base, ← ih]
    simp [typeName, bracketed]
  | _ => simp [Ty.base, Ty.sizes, bracketed]

/-- A declaration has the outermost size after the name, and the others before it in reverse
order. -/
theorem toList_declarator (ty : Ty) (name : String) :
    (declarator ty name).toList =
      (typeName ty.base).toList ++ bracketed ty.sizes.tail.reverse ++
        ' ' :: (name.toList ++ bracketed (ty.sizes.take 1)) := by
  cases ty with
  | array item size =>
    rw [Ty.base, Ty.sizes, List.tail_cons, ← toList_typeName]
    simp [declarator, bracketed]
  | _ => simp [declarator, Ty.base, Ty.sizes, bracketed]

/-- The name of a type is read with all sizes in reverse order. -/
theorem denoted?_typeName (ty : Ty) :
    denoted? (typeName ty).toList = some (ty.base.arrays ty.sizes.reverse) := by
  obtain ⟨hname, hbracket, -⟩ := typeName_base ty
  rw [denoted?, toList_typeName, sized?_append hbracket]
  simp [hname]

/-- A declaration is read with all sizes but the outermost in reverse order. -/
theorem declared?_declarator (ty : Ty) {name : String}
    (h : Lexeme.isIdentifier name.toList = true) :
    declared? (declarator ty name).toList =
      some (name, ty.base.arrays (ty.sizes.take 1 ++ ty.sizes.tail.reverse)) := by
  obtain ⟨hitem, hbracket, hspace⟩ := typeName_base ty
  have hbefore : ' ' ∉ (typeName ty.base).toList ++ bracketed ty.sizes.tail.reverse := by
    rw [List.mem_append, not_or]
    exact ⟨hspace, space_not_mem_bracketed _⟩
  have hstop : ∀ c ∈ (' ' :: (name.toList ++ bracketed (ty.sizes.take 1))).head?,
      (c != ' ') = false := by
    rintro c ⟨⟩
    rfl
  have hname : '[' ∉ name.toList := by
    intro hmem
    exact absurd (Lexeme.isIdentContinue_of_mem h hmem) (by decide)
  rw [declared?, toList_declarator, takeWhile_append_stop (bne_of_not_mem hbefore) hstop,
    dropWhile_append_stop (bne_of_not_mem hbefore) hstop, sized?_append hbracket]
  simp [hitem, sized?_append hname, h]

/-- What the texts of a type are read as.  A declaration is read as one of the type with all sizes
but the outermost in reverse order, and the name of a type as the one with all sizes in reverse
order; so they are read as the type itself exactly if these sizes are the same from both ends. -/
theorem array_text_reads (ty : Ty) {name : String} (h : Lexeme.isIdentifier name.toList = true) :
    declared? (declarator ty name).toList =
        some (name, ty.base.arrays (ty.sizes.take 1 ++ ty.sizes.tail.reverse)) ∧
      denoted? (typeName ty).toList = some (ty.base.arrays ty.sizes.reverse) ∧
      (declared? (declarator ty name).toList = some (name, ty) ↔
        ty.sizes.tail.reverse = ty.sizes.tail) ∧
      (denoted? (typeName ty).toList = some ty ↔ ty.sizes.reverse = ty.sizes) := by
  have hdeclared := declared?_declarator ty h
  have hdenoted := denoted?_typeName ty
  refine ⟨hdeclared, hdenoted, ?_, ?_⟩
  · have hsizes : ty.sizes.take 1 ++ ty.sizes.tail.reverse = ty.sizes ↔
        ty.sizes.tail.reverse = ty.sizes.tail := by
      cases ty.sizes with
      | nil => simp
      | cons size sizes => simp
    rw [hdeclared, Option.some.injEq, Prod.mk.injEq, Ty.arrays_base_eq_iff, hsizes]
    exact and_iff_right rfl
  · rw [hdenoted, Option.some.injEq, Ty.arrays_base_eq_iff]

/-- Two arrays of three numbers are declared as such, and three arrays of three are named as
such. -/
theorem array_text_reads_nested :
    Lexeme.isIdentifier "x".toList = true ∧
      declarator (.array (.array .float 3) 2) "x" = "float[3] x[2]" ∧
      declared? (declarator (.array (.array .float 3) 2) "x").toList =
        some ("x", .array (.array .float 3) 2) ∧
      denoted? (typeName (.array (.array .float 3) 3)).toList =
        some (.array (.array .float 3) 3) := by
  have hname : Lexeme.isIdentifier "x".toList = true := by decide
  refine ⟨hname, by decide, ?_, ?_⟩
  · exact (array_text_reads (.array (.array .float 3) 2) hname).2.2.1.mpr rfl
  · exact (array_text_reads (.array (.array .float 3) 3) hname).2.2.2.mpr rfl

/-- The name of two arrays of three numbers is read as three arrays of two, and a declaration of
four arrays of three arrays of two as one of four arrays of two arrays of three. -/
theorem array_text_misread :
    typeName (.array (.array .float 3) 2) = "float[3][2]" ∧
      denoted? (typeName (.array (.array .float 3) 2)).toList =
        some (.array (.array .float 2) 3) ∧
      denoted? (typeName (.array (.array .float 3) 2)).toList ≠
        some (.array (.array .float 3) 2) ∧
      declarator (.array (.array (.array .float 2) 3) 4) "x" = "float[2][3] x[4]" ∧
      declared? (declarator (.array (.array (.array .float 2) 3) 4) "x").toList =
        some ("x", .array (.array (.array .float 3) 2) 4) ∧
      declared? (declarator (.array (.array (.array .float 2) 3) 4) "x").toList ≠
        some ("x", .array (.array (.array .float 2) 3) 4) := by
  have hdenoted : denoted? (typeName (.array (.array .float 3) 2)).toList =
      some (.array (.array .float 2) 3) :=
    denoted?_typeName (.array (.array .float 3) 2)
  have hdeclared : declared? (declarator (.array (.array (.array .float 2) 3) 4) "x").toList =
      some ("x", .array (.array (.array .float 3) 2) 4) :=
    declared?_declarator (.array (.array (.array .float 2) 3) 4) (by decide)
  refine ⟨by decide, hdenoted, ?_, by decide, hdeclared, ?_⟩
  · rw [hdenoted]
    decide
  · rw [hdeclared]
    decide

end Target

end ShaderLang
