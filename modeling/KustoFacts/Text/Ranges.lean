import KustoFacts.Text.Utf8

/-!
    Sets of code points given as a list of closed ranges in ascending order. -/

namespace KustoFacts

/-- Closed ranges of code points, ascending and disjoint. -/
abbrev CodeRanges := List (Nat × Nat)

/-- Whether a code point lies in one of the ranges. -/
def CodeRanges.has (ranges : CodeRanges) (code : Nat) : Bool :=
  ranges.any fun (low, high) => low ≤ code && code ≤ high

end KustoFacts
