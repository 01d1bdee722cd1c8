/-! # Sets of characters given by code point ranges

A character property that follows no short rule is a table of inclusive code point ranges, in
ascending order.  `Ranges.contains` is membership of a character in the union of the ranges. -/

namespace ProjectFile.Text

/-- A set of characters, as inclusive ranges of code points. -/
abbrev Ranges := List (Nat × Nat)

/-- Whether the code point of `c` lies in one of the ranges. -/
def Ranges.contains (rs : Ranges) (c : Char) : Bool :=
  rs.any fun r => r.1 ≤ c.toNat && c.toNat ≤ r.2

end ProjectFile.Text
