/-!
# Ranges of code points

A character class of Unicode is given by the ranges of its code points. They are in ascending
order, and no two of them meet.
-/

namespace LayeredConfig.Text

/-- Whether a character lies in one of some ascending ranges, both ends of each included. -/
def inRanges : (ranges : List (Nat × Nat)) → (c : Char) → Bool
  | [], _ => false
  | (low, high) :: rest, c => low ≤ c.toNat && (c.toNat ≤ high || inRanges rest c)

end LayeredConfig.Text
