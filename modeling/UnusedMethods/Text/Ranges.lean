/-!
# Ranges of characters

A class of characters is given by the ranges of code points that belong to it.
-/

namespace UnusedMethods.Text

/-- A code point lies in one of the ranges. -/
def inRanges (ranges : List (Nat × Nat)) (n : Nat) : Bool :=
  ranges.any fun (lo, hi) => lo ≤ n && n ≤ hi

end UnusedMethods.Text
