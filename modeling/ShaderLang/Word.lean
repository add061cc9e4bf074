/-!
# Reserved words

Words that no declaration may use as a name: the keywords, the name of the counter of a loop that
names none, and the names of the temporaries that carry signals between composed shaders.
-/

namespace ShaderLang

namespace Word

/-- The counter of a loop that names none. -/
def counter : String := "_i"

/-- The keywords and the counter. -/
def keywords : List String :=
  ["uniform", "vert", "frag", "mkProg", "Prog", "Int", "Bool", "Float", "Vec2", "Vec3", "Vec4",
   "Mat4", "let", "mut", "set", "out", "if", "else", "for", "in", "do", "true", "false", counter]

/-- The name of the temporary that carries a signal between composed shaders. -/
def link (index : Nat) : String :=
  "_c" ++ toString index

/-- A name has the form of a link: `_c` and one or more decimal digits. -/
def isLink (name : String) : Bool :=
  match name.toList with
  | '_' :: 'c' :: digits => !digits.isEmpty && digits.all Char.isDigit
  | _ => false

/-- A word cannot be used as a name. -/
def isReserved (name : String) : Bool :=
  keywords.contains name || isLink name

/-- Links of different signals have different names. -/
@[simp]
theorem link_inj {i j : Nat} : link i = link j ↔ i = j := by
  constructor
  · intro hsame
    have hdigits : i.repr.toList = j.repr.toList := by
      simpa [link, String.append_right_inj] using congrArg String.toList hsame
    have := congrArg (fun ds => Nat.ofDigitChars 10 ds 0) hdigits
    simpa [Nat.toList_repr] using this
  · rintro rfl
    rfl

/-- The names of links have the form of a link. -/
theorem isLink_link (index : Nat) : isLink (link index) = true := by
  simp only [isLink, link, String.toList_append, Nat.toString_eq_repr, Nat.toList_repr]
  simpa using fun c => Nat.isDigit_of_mem_toDigits (by decide) (by decide)

/-- No declaration can use the name of a link. -/
theorem isReserved_link (index : Nat) : isReserved (link index) = true := by
  simp [isReserved, isLink_link]

end Word

end ShaderLang
