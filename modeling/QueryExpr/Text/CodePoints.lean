/-!
# Sets of code points

A property of characters that a standard lists is held as the closed ranges of its code points.
-/

namespace QueryExpr.Text

/-- Closed ranges of code points, ascending and with a gap between them. -/
abbrev CodePoints := List (Nat × Nat)

namespace CodePoints

def contains (ranges : CodePoints) (c : Char) : Bool :=
  ranges.any fun range => decide (range.1 ≤ c.toNat) && decide (c.toNat ≤ range.2)

/-- The ranges follow one another with a gap, from `least` on. -/
def ascendsFrom (least : Nat) : CodePoints → Bool
  | [] => true
  | range :: ranges =>
      decide (least ≤ range.1) && decide (range.1 ≤ range.2) && ascendsFrom (range.2 + 2) ranges

/-- How many code points there are. -/
def count (ranges : CodePoints) : Nat :=
  ranges.foldl (fun total range => total + (range.2 + 1 - range.1)) 0

theorem contains_eq_false {ranges : CodePoints} {c : Char}
    (h : ∀ range ∈ ranges, range.2 < c.toNat ∨ c.toNat < range.1) : ranges.contains c = false := by
  simp only [contains, List.any_eq_false, Bool.and_eq_true, decide_eq_true_eq]
  intro range hmem
  rcases h range hmem with h | h <;> omega

end CodePoints

end QueryExpr.Text
