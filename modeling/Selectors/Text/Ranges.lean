/-!
# Ranges of characters

Properties of characters are given by the ranges of numbers that have them.

* `inRanges` is membership in one of the ranges.
-/

namespace Selectors.Text

/-- Whether a character lies in one of the ranges. -/
def inRanges (ranges : List (Nat × Nat)) (c : Char) : Bool :=
  ranges.any fun (first, last) => first ≤ c.toNat && c.toNat ≤ last

end Selectors.Text
