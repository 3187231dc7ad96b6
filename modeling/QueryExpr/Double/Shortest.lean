import QueryExpr.Double

/-!
# Shortest decimals

The decimal written for a double is the one with the fewest digits among those that round to it.
The reals that round to `m * 2 ^ q` form an interval; the search walks the decimal grids from the
coarsest on and asks whether one of the value's two neighbours on the grid lies in it.
-/

namespace QueryExpr

/-- `0.d₁d₂…dₙ * 10 ^ scale`, with neither `d₁` nor `dₙ` zero. -/
structure Decimal where
  digits : List Char
  scale : Int
deriving DecidableEq, Repr

/-- Which of two decimals is taken when both are equally near. -/
inductive Tie where
  | upward
  | toEven
deriving DecidableEq, Repr

namespace Decimal

open Double (exponentWeight power)

/-- The grid point `point * 10 ^ exponent`, trailing zeros dropped. -/
def ofGrid (point : Nat) (exponent : Int) : Decimal :=
  let digits := Nat.toDigits 10 point
  ⟨(digits.reverse.dropWhile (· == '0')).reverse, digits.length + exponent⟩

/--
The grid point next to `m * 2 ^ q` that rounds to it, if there is one; of two the nearer. Lengths
are measured in quarters of `2 ^ q`: the interval ends half a gap away, and below a power of two
the gap is half as wide. The ends belong to it when `m` is even.
-/
def onGrid (tie : Tie) (m : Nat) (q exponent : Int) : Option Nat :=
  let quarter := power 2 (q - 2) * power 10 (-exponent)
  let step := power 2 (2 - q) * power 10 exponent
  let low := (if m = exponentWeight ∧ q ≠ -1074 then 4 * m - 1 else 4 * m - 2) * quarter
  let high := (4 * m + 2) * quarter
  let roundsBack (point : Nat) : Bool :=
    if m % 2 = 0 then decide (low ≤ point * step ∧ point * step ≤ high)
    else decide (low < point * step ∧ point * step < high)
  let below := 4 * m * quarter / step
  let nearer :=
    match compare (2 * (4 * m * quarter)) ((2 * below + 1) * step) with
    | .lt => below
    | .gt => below + 1
    | .eq => if tie = .toEven ∧ below % 2 = 0 then below else below + 1
  match roundsBack below, roundsBack (below + 1) with
  | false, false => none
  | true, false => some below
  | false, true => some (below + 1)
  | true, true => some nearer

/-- The least `k` with `num / den < 10 ^ k`, for positive `num` and `den`. -/
def decimalScale (num den : Nat) : Int :=
  let k : Int := ((Nat.toDigits 10 num).length : Int) - (Nat.toDigits 10 den).length
  if num * power 10 (-k) < den * power 10 k then k else k + 1

/-- All the digits of `m * 2 ^ q`. -/
def exact (m : Nat) (q : Int) : Decimal :=
  ofGrid (m * power 2 q * power 5 (-q)) (min q 0)

/-- Seventeen digits identify every double, so the exact decimal is a fallback only. -/
def shortest (tie : Tie) (m : Nat) (q : Int) : Decimal :=
  let scale := decimalScale (m * power 2 q) (power 2 (-q))
  let found := (List.range 17).findSome? fun (n : Nat) =>
    let exponent := scale - 1 - (n : Int)
    (onGrid tie m q exponent).map (ofGrid · exponent)
  found.getD (exact m q)

end Decimal

end QueryExpr
