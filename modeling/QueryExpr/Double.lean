/-!
# Double-precision numbers

A double is held as its 64 bits, so the sign of zero and the payload of a NaN are kept. The bits
denote a sign, a natural significand and a power of two, and every operation here is exact integer
arithmetic on these, followed by at most one rounding.
-/

namespace QueryExpr

/-- A binary floating-point number of 64 bits. Equality of this type is equality of the bits. -/
structure Double where
  bits : UInt64
deriving DecidableEq, Repr, Inhabited

namespace Double

/-- What the bits denote. A finite number is `significand * 2 ^ exponent`, up to sign. -/
inductive Reading where
  | nan
  | infinite (negative : Bool)
  | finite (negative : Bool) (significand : Nat) (exponent : Int)
deriving DecidableEq, Repr

/-- What the sign bit counts, two to the power of 63. -/
def signWeight : Nat := 0x8000000000000000

/-- What the lowest bit of the exponent counts, two to the power of 52. -/
def exponentWeight : Nat := 0x10000000000000

def isNegative (x : Double) : Bool := decide (signWeight ≤ x.bits.toNat)

/-- The bits below the sign. Read as naturals they are ordered as the absolute values are. -/
def magnitude (x : Double) : Nat := x.bits.toNat % signWeight

/-- The magnitude of infinity; a larger one belongs to a NaN. -/
def infinityMagnitude : Nat := 2047 * exponentWeight

def isNaN (x : Double) : Bool := decide (infinityMagnitude < x.magnitude)

def isFinite (x : Double) : Bool := decide (x.magnitude < infinityMagnitude)

def reading (x : Double) : Reading :=
  let biased : Nat := x.magnitude / exponentWeight
  let fraction : Nat := x.magnitude % exponentWeight
  if biased = 2047 then
    if fraction = 0 then .infinite x.isNegative else .nan
  else if biased = 0 then .finite x.isNegative fraction (-1074)
  else .finite x.isNegative (exponentWeight + fraction) ((biased : Int) - 1075)

def ofMagnitude (negative : Bool) (magnitude : Nat) : Double :=
  ⟨UInt64.ofNat (magnitude + if negative then signWeight else 0)⟩

def zero : Double := ofMagnitude false 0

def one : Double := ⟨0x3FF0000000000000⟩

def infinity (negative : Bool) : Double := ofMagnitude negative infinityMagnitude

def nan : Double := ⟨0x7FF8000000000000⟩

/-- The magnitude with its sign. Both zeros have rank zero. -/
def rank (x : Double) : Int := if x.isNegative then -(x.magnitude : Int) else x.magnitude

/-- Order of the numbers denoted; a NaN is comparable with nothing, itself included. -/
def compare? (x y : Double) : Option Ordering :=
  if x.isNaN || y.isNaN then none else some (compare x.rank y.rank)

/-- Equality of the numbers denoted: a NaN differs from itself and the two zeros are equal. -/
def numericEq (x y : Double) : Bool := x.compare? y == some .eq

/-- The quotient rounded to the nearest natural, a half to the even neighbour. -/
def roundQuotient (num den : Nat) : Nat :=
  let whole := num / den
  match compare (2 * (num % den)) den with
  | .lt => whole
  | .gt => whole + 1
  | .eq => if whole % 2 = 0 then whole else whole + 1

/--
`base ^ exponent` for an exponent that is not negative, and one for the others; so a power with any
exponent is `power base exponent / power base (-exponent)`.
-/
def power (base : Nat) (exponent : Int) : Nat := Nat.pow base exponent.toNat

/-- The greatest `e` with `2 ^ e ≤ num / den`, for positive `num` and `den`. -/
def binaryScale (num den : Nat) : Int :=
  let e : Int := (num.log2 : Int) - den.log2
  if den * power 2 e ≤ num * power 2 (-e) then e else e - 1

/--
The double nearest to `num / den`, a half to the even significand. Rounding up to the next power
of two carries into the exponent, and past the largest finite number into infinity.
-/
def ofRatio (negative : Bool) (num den : Nat) : Double :=
  if num = 0 then ofMagnitude negative 0
  else
    let exponent := max (binaryScale num den - 52) (-1074)
    let significand := roundQuotient (num * power 2 (-exponent)) (den * power 2 exponent)
    let magnitude := (exponent + 1074).toNat * exponentWeight + significand
    ofMagnitude negative (min magnitude infinityMagnitude)

def ofInt (i : Int) : Double := ofRatio (decide (i < 0)) i.natAbs 1

/-- A finite number as a quotient of naturals, up to sign. -/
def ratio? (x : Double) : Option (Nat × Nat) :=
  match x.reading with
  | .finite _ significand exponent =>
      some (significand * power 2 exponent, power 2 (-exponent))
  | _ => none

/-- The nearest integer of a finite number, a half away from zero. -/
def nearestInt? (x : Double) : Option Int :=
  match x.reading with
  | .finite negative significand exponent =>
      let den := power 2 (-exponent)
      let rounded : Nat := (2 * (significand * power 2 exponent) + den) / (2 * den)
      some (if negative then -(rounded : Int) else rounded)
  | _ => none

end Double

end QueryExpr
