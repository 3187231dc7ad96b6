import QueryExpr.Double
import QueryExpr.Ty

/-!
# Values

The values expressions compute with. Null is also the third truth value. Equality of the type
compares doubles by their bits; the equality and the order that queries see compare the numbers.
-/

namespace QueryExpr

inductive Value where
  | null
  | bool (b : Bool)
  | i32 (n : Int32)
  | i64 (n : Int64)
  | f64 (x : Double)
  | string (s : String)
deriving DecidableEq, Repr, Inhabited

namespace Value

def ty : Value → Ty
  | null => .null
  | bool _ => .bool
  | i32 _ => .i32
  | i64 _ => .i64
  | f64 _ => .f64
  | string _ => .string

def isNull : Value → Bool
  | null => true
  | _ => false

def isNumeric (v : Value) : Bool := v.ty.isNumeric

def text? : Value → Option String
  | string s => some s
  | _ => none

/-- Same kind and same content; a NaN differs from itself and the two zeros are equal. -/
def eqv : Value → Value → Bool
  | f64 x, f64 y => x.numericEq y
  | v, w => decide (v = w)

/--
Order of two values of one kind, or of two numbers. Beside a double an integer is first rounded to
the nearest double. Strings are ordered by code points. Null and values of different kinds are not
comparable.
-/
def compare? : Value → Value → Option Ordering
  | bool a, bool b => some (compare a b)
  | string s, string t => some (compare s t)
  | i32 a, i32 b => some (compare a.toInt b.toInt)
  | i64 a, i64 b => some (compare a.toInt b.toInt)
  | i32 a, i64 b => some (compare a.toInt b.toInt)
  | i64 a, i32 b => some (compare a.toInt b.toInt)
  | f64 x, f64 y => x.compare? y
  | f64 x, i32 b => x.compare? (Double.ofInt b.toInt)
  | f64 x, i64 b => x.compare? (Double.ofInt b.toInt)
  | i32 a, f64 y => (Double.ofInt a.toInt).compare? y
  | i64 a, f64 y => (Double.ofInt a.toInt).compare? y
  | _, _ => none

/-- A truth value as a value: unknown is null. -/
def ofTruth : Option Bool → Value
  | none => null
  | some b => bool b

end Value

end QueryExpr
