/-!
# Lengths and offsets in bytes

A text is stored in UTF-8, where a character takes one to four bytes.  Offsets in bytes and
positions in characters are two measures of the same places.
-/

namespace ShaderLang.Text

/-- The number of bytes of a text. -/
def byteLength : List Char → Nat
  | [] => 0
  | c :: cs => c.utf8Size + byteLength cs

/-- The number of characters that lie wholly within the first bytes of a text. -/
def charsWithin (bytes : Nat) : List Char → Nat
  | [] => 0
  | c :: cs => if c.utf8Size ≤ bytes then charsWithin (bytes - c.utf8Size) cs + 1 else 0

/-- The text from the line after some number of lines on. -/
def afterLines : Nat → List Char → List Char
  | 0, cs => cs
  | n + 1, cs => afterLines n ((cs.dropWhile (· != '\n')).drop 1)

@[simp] theorem byteLength_nil : byteLength [] = 0 := rfl

@[simp] theorem byteLength_cons (c : Char) (cs : List Char) :
    byteLength (c :: cs) = c.utf8Size + byteLength cs := rfl

theorem byteLength_append (cs ds : List Char) :
    byteLength (cs ++ ds) = byteLength cs + byteLength ds := by
  induction cs with
  | nil => simp
  | cons c cs ih => simp [ih, Nat.add_assoc]

/-- Every character takes at least one byte. -/
theorem length_le_byteLength (cs : List Char) : cs.length ≤ byteLength cs := by
  induction cs with
  | nil => simp
  | cons c cs ih =>
    have := c.utf8Size_pos
    simp only [byteLength_cons, List.length_cons]
    omega

/-- No more characters lie within some bytes than there are. -/
theorem charsWithin_le_length (bytes : Nat) (cs : List Char) :
    charsWithin bytes cs ≤ cs.length := by
  induction cs generalizing bytes with
  | nil => simp [charsWithin]
  | cons c cs ih =>
    have := ih (bytes - c.utf8Size)
    rw [charsWithin]
    split <;> simp only [List.length_cons] <;> omega

/-- The bytes of the first part of a text hold just the characters of that part. -/
theorem charsWithin_byteLength (cs ds : List Char) :
    charsWithin (byteLength cs) (cs ++ ds) = cs.length := by
  induction cs with
  | nil =>
    cases ds with
    | nil => rfl
    | cons d ds =>
      have := d.utf8Size_pos
      simp only [byteLength_nil, List.nil_append, charsWithin, List.length_nil]
      rw [if_neg (by omega)]
  | cons c cs ih => simp [charsWithin, ih]

/-- More bytes hold at least as many characters. -/
theorem charsWithin_mono {a b : Nat} (h : a ≤ b) (cs : List Char) :
    charsWithin a cs ≤ charsWithin b cs := by
  induction cs generalizing a b with
  | nil => simp [charsWithin]
  | cons c cs ih =>
    have := ih (Nat.sub_le_sub_right h c.utf8Size)
    simp only [charsWithin]
    split <;> split <;> omega

end ShaderLang.Text
