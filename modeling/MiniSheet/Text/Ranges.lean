/-!
# Ranges of code points

A property of characters that a standard gives as data is kept as a list of closed ranges of code
points. Membership in the list is the property.
-/

namespace MiniSheet

/-- Closed ranges of code points, first and last member of each. -/
abbrev Ranges : Type := List (Nat × Nat)

namespace Ranges

/-- Whether a code point lies in one of the ranges. -/
def contains (ranges : Ranges) (n : Nat) : Bool :=
  ranges.any fun range => range.1 ≤ n && n ≤ range.2

theorem contains_iff {ranges : Ranges} {n : Nat} :
    ranges.contains n = true ↔ ∃ range ∈ ranges, range.1 ≤ n ∧ n ≤ range.2 := by
  simp [contains]

end Ranges

end MiniSheet
