/-!
# Ranges of code points

Classes of characters are given as ranges, in order and apart from each other.
-/

namespace Jvm.Text

/-- The number lies in one of the ranges, which are in order. -/
def inRanges (n : Nat) : List (Nat × Nat) → Bool
  | [] => false
  | (first, last) :: rest => first ≤ n && (n ≤ last || inRanges n rest)

end Jvm.Text
