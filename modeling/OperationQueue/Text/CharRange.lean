/-
# Classes of characters given by ranges

A class is a list of ranges of code points with both ends included.
-/

namespace OperationQueue.CharRange

/-- Whether a character lies in one of the ranges. -/
def covers (ranges : List (Nat × Nat)) (c : Char) : Bool :=
  ranges.any fun r => r.1 ≤ c.toNat && c.toNat ≤ r.2

end OperationQueue.CharRange
