/-!
# Sets of code points

A class of characters is kept as inclusive ranges of code points, ascending and apart. The tables
built this way follow Unicode 17.0.
-/

namespace Lineage.Text

/-- The character lies in one of the ranges. -/
def isWithin (ranges : List (Nat × Nat)) (c : Char) : Bool :=
  ranges.any fun r => r.1 ≤ c.toNat && c.toNat ≤ r.2

end Lineage.Text
