import QueryExpr.Double

/-!
# Doubles and machine integers

A double becomes a machine integer in three steps. It is rounded to a whole double, that is compared
with the ends of the range as doubles, and if it lies within them its integer part is taken. Taking
the integer part stops at the ends of the range, so what lies beyond has to be refused before.
-/

namespace QueryExpr.Double

/--
The nearest whole number, a half away from zero. The sign stays as it is, that of a zero too, and so
do infinity and NaN.
-/
def round (x : Double) : Double :=
  match x.nearestInt? with
  | some n => ofRatio x.isNegative n.natAbs 1
  | none => x

/-- Neither this nor `atMost` holds of a NaN. -/
def below (x y : Double) : Bool := x.compare? y == some .lt

def atMost (x y : Double) : Bool := x.below y || x.numericEq y

/-- The integer part, or the nearer end of the range for what lies beyond it; zero for a NaN. -/
def saturate (lo hi : Int) (x : Double) : Int :=
  match x.reading with
  | .nan => 0
  | .infinite negative => if negative then lo else hi
  | .finite negative significand exponent =>
      let whole : Nat := significand * power 2 exponent / power 2 (-exponent)
      max lo (min hi (if negative then -(whole : Int) else whole))

def toInt32? (x : Double) : Option Int32 :=
  let lo := Int32.minValue.toInt
  let hi := Int32.maxValue.toInt
  let whole := x.round
  if !whole.isFinite || whole.below (ofInt lo) || (ofInt hi).below whole then none
  else some (Int32.ofInt (whole.saturate lo hi))

/--
The greatest integer of 64 bits is no double. As a double it is two to the power of 63, and so the
upper end is refused with all that lies beyond it.
-/
def toInt64? (x : Double) : Option Int64 :=
  let lo := Int64.minValue.toInt
  let hi := Int64.maxValue.toInt
  let whole := x.round
  if !whole.isFinite || whole.below (ofInt lo) || (ofInt hi).atMost whole then none
  else some (Int64.ofInt (whole.saturate lo hi))

end QueryExpr.Double
