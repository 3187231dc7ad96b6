import QueryExpr.Double.Shortest

/-!
# Laying out a double

The digits are the shortest ones; a layout says where the point goes, from which exponents on the
scientific form is used, and whether a whole number keeps its `.0`.
-/

namespace QueryExpr

/-- How the decimal of a double is written. -/
structure Layout where
  /-- The least exponent of a leading digit that is written positionally, if there is one. -/
  positionalFrom : Option Int
  /-- The least exponent from which on a number is written scientifically, if there is one. -/
  scientificFrom : Option Int
  /-- Whole numbers keep `.0` in positional form. -/
  keepsPoint : Bool
  /-- An exponent that is not negative has a `+` in front. -/
  marksPlus : Bool
  tie : Tie
deriving DecidableEq, Repr

namespace Layout

/-- The text of a number cast to a string: always positional, whole numbers without a point. -/
def plain : Layout := ⟨none, none, false, false, .upward⟩

/-- A literal: a whole number keeps its point; scientific below `10 ^ -4` and from `10 ^ 16` on. -/
def literal : Layout := ⟨some (-4), some 16, true, false, .upward⟩

/-- A number of a JSON text: scientific below `10 ^ -5` and from `10 ^ 16` on, as in `1e+16`. -/
def json : Layout := ⟨some (-5), some 16, true, true, .toEven⟩

def zeros (n : Nat) : List Char := List.replicate n '0'

def positional (l : Layout) (d : Decimal) : List Char :=
  if d.scale ≤ 0 then '0' :: '.' :: zeros (-d.scale).toNat ++ d.digits
  else if d.digits.length ≤ d.scale.toNat then
    d.digits ++ zeros (d.scale.toNat - d.digits.length) ++ if l.keepsPoint then ['.', '0'] else []
  else d.digits.take d.scale.toNat ++ '.' :: d.digits.drop d.scale.toNat

def scientific (l : Layout) (d : Decimal) : List Char :=
  let fraction := d.digits.drop 1
  let exponent := d.scale - 1
  let sign := if exponent < 0 then ['-'] else if l.marksPlus then ['+'] else []
  d.digits.take 1 ++ (if fraction.isEmpty then [] else '.' :: fraction) ++
    'e' :: sign ++ Nat.toDigits 10 exponent.natAbs

def isPositional (l : Layout) (d : Decimal) : Bool :=
  l.positionalFrom.all (· ≤ d.scale - 1) && l.scientificFrom.all (d.scale - 1 < ·)

def writeFinite (l : Layout) (m : Nat) (q : Int) : List Char :=
  if m = 0 then if l.keepsPoint then ['0', '.', '0'] else ['0']
  else
    let d := Decimal.shortest l.tie m q
    if l.isPositional d then l.positional d else l.scientific d

def write (l : Layout) (x : Double) : String :=
  match x.reading with
  | .nan => "NaN"
  | .infinite negative => if negative then "-inf" else "inf"
  | .finite negative m q =>
      String.ofList ((if negative then ['-'] else []) ++ l.writeFinite m q)

example : literal.write ⟨0x3FB999999999999A⟩ = "0.1" := by decide +kernel

example : literal.write ⟨0x4341C37937E08000⟩ = "1e16" := by decide +kernel

example : json.write ⟨0x4341C37937E08000⟩ = "1e+16" := by decide +kernel

example : plain.write ⟨0x8000000000000000⟩ = "-0" := by decide +kernel

end Layout

end QueryExpr
