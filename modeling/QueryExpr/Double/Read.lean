import QueryExpr.Double
import QueryExpr.Text.Numeral

/-!
# Reading a double

A decimal numeral denotes a rational number and is read as the double nearest to it; beyond the
largest one that is infinity, below half the least one zero. `inf`, `infinity` and `nan` are
numerals too, in any case.
-/

namespace QueryExpr.Double

/-- The leading digits of a text: their value, how many there are, and what follows them. -/
def digitRun (s : List Char) : Nat × Nat × List Char :=
  let digits := s.takeWhile Char.isDigit
  (digits.foldl (fun value c => value * 10 + (c.toNat - 48)) 0, digits.length,
    s.dropWhile Char.isDigit)

/-- The exponent after a significand: nothing, or a mark, an optional sign and digits. -/
def readExponent? : List Char → Option Int
  | [] => some 0
  | mark :: s =>
      if mark = 'e' ∨ mark = 'E' then
        let (negative, s) := match s with
          | '-' :: s => (true, s)
          | '+' :: s => (false, s)
          | s => (false, s)
        match digitRun s with
        | (_, 0, _) => none
        | (value, _, []) => some (if negative then -(value : Int) else value)
        | _ => none
      else none

/--
The double nearest to `significand * 10 ^ exponent`. Powers of ten that can only overflow or
vanish are not computed.
-/
def ofDecimal (negative : Bool) (significand : Nat) (exponent : Int) : Double :=
  let top : Int := (Nat.toDigits 10 significand).length + exponent
  if significand = 0 ∨ top < -330 then ofMagnitude negative 0
  else if 330 < top then infinity negative
  else ofRatio negative (significand * power 10 exponent) (power 10 (-exponent))

/-- A significand with a digit on at least one side of its point, and an exponent. -/
def readDecimal? (negative : Bool) (s : List Char) : Option Double :=
  let (whole, wholeLength, s) := digitRun s
  let (fraction, fractionLength, s) := match s with
    | '.' :: s => digitRun s
    | s => (0, 0, s)
  if wholeLength + fractionLength = 0 then none
  else (readExponent? s).map fun exponent =>
    ofDecimal negative (whole * power 10 fractionLength + fraction) (exponent - fractionLength)

/-- A sign in front of `nan` is kept in the bits, as that of any other numeral is. -/
def readSpecial? (negative : Bool) (s : List Char) : Option Double :=
  match String.ofList (s.map Char.toLower) with
  | "inf" | "infinity" => some (infinity negative)
  | "nan" => some (ofMagnitude negative nan.magnitude)
  | _ => none

def readUnsigned (negative : Bool) (s : List Char) : Except NumeralFault Double :=
  match readDecimal? negative s with
  | some x => .ok x
  | none =>
      match readSpecial? negative s with
      | some x => .ok x
      | none => .error .invalidFraction

def read : List Char → Except NumeralFault Double
  | [] => .error .emptyFraction
  | '-' :: s => readUnsigned true s
  | '+' :: s => readUnsigned false s
  | s => readUnsigned false s

end QueryExpr.Double
