/-!
# Sets of characters given by ranges

A character property of a standard is a table of code point ranges, both ends included.  The table
modules of this folder hold one property each and test membership with `inRanges`.
-/

namespace ShaderLang.Text

/-- The code point of a character lies in one of the ranges of a table. -/
def inRanges (table : List (Nat × Nat)) (c : Char) : Bool :=
  table.any fun range => range.1 ≤ c.toNat && c.toNat ≤ range.2

end ShaderLang.Text
