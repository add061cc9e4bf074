import ShaderLang.Text.Ranges

/-!
# White space

The characters with the White_Space property, and those among which tokens may be separated.
-/

namespace ShaderLang.Text

/-- Characters with the White_Space property. -/
def whiteSpaceRanges : List (Nat × Nat) :=
  [(0x9, 0xD), (0x20, 0x20), (0x85, 0x85), (0xA0, 0xA0), (0x1680, 0x1680), (0x2000, 0x200A),
   (0x2028, 0x2029), (0x202F, 0x202F), (0x205F, 0x205F), (0x3000, 0x3000)]

/-- A character is white space. -/
def isWhiteSpace (c : Char) : Bool :=
  inRanges whiteSpaceRanges c

/-- A character that only separates tokens: white space or one of the two direction marks. -/
def isBlank (c : Char) : Bool :=
  isWhiteSpace c || c.toNat == 0x200E || c.toNat == 0x200F

end ShaderLang.Text
