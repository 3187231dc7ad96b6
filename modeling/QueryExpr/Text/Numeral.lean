/-!
# Integer numerals

A numeral is an optional sign and decimal digits. It is read from the left, and the first problem
met is the one reported: a character that is no digit, or a value that has left the range.
-/

namespace QueryExpr

/-- Why a text is no numeral of the wanted kind. -/
inductive NumeralFault where
  | emptyInteger
  | invalidDigit
  | aboveRange
  | belowRange
  | emptyFraction
  | invalidFraction
deriving DecidableEq, Repr

namespace NumeralFault

def message : NumeralFault → String
  | emptyInteger => "cannot parse integer from empty string"
  | invalidDigit => "invalid digit found in string"
  | aboveRange => "number too large to fit in target type"
  | belowRange => "number too small to fit in target type"
  | emptyFraction => "cannot parse float from empty string"
  | invalidFraction => "invalid float literal"

end NumeralFault

namespace Text

/-- The value of an ASCII digit. -/
def digit? (c : Char) : Option Nat := if c.isDigit then some (c.toNat - 48) else none

/-- Appends digits to a value that is held within `lo` and `hi` all the way. -/
def readDigits (lo hi : Int) (negative : Bool) : Int → List Char → Except NumeralFault Int
  | value, [] => .ok value
  | value, c :: cs =>
      match digit? c with
      | none => .error .invalidDigit
      | some d =>
          let next := value * 10 + if negative then -(d : Int) else d
          if hi < next then .error .aboveRange
          else if next < lo then .error .belowRange
          else readDigits lo hi negative next cs

def readInteger (lo hi : Int) : List Char → Except NumeralFault Int
  | [] => .error .emptyInteger
  | ['+'] | ['-'] => .error .invalidDigit
  | '+' :: cs => readDigits lo hi false 0 cs
  | '-' :: cs => readDigits lo hi true 0 cs
  | cs => readDigits lo hi false 0 cs

def readInt32 (s : List Char) : Except NumeralFault Int32 :=
  (readInteger Int32.minValue.toInt Int32.maxValue.toInt s).map Int32.ofInt

def readInt64 (s : List Char) : Except NumeralFault Int64 :=
  (readInteger Int64.minValue.toInt Int64.maxValue.toInt s).map Int64.ofInt

def writeInteger (i : Int) : String :=
  String.ofList ((if i < 0 then ['-'] else []) ++ Nat.toDigits 10 i.natAbs)

end Text

end QueryExpr
