/-!
# Sets of characters as ranges

A set of characters is given by ranges of code points, each with both its ends.
-/

namespace Kestrel.Text

/-- Whether the code point of `c` lies in one of the ranges. -/
def inRanges (ranges : List (Nat × Nat)) (c : Char) : Bool :=
  ranges.any fun (first, last) => first ≤ c.toNat && c.toNat ≤ last

end Kestrel.Text
