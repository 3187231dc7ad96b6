import QueryExpr.Double.Integer
import QueryExpr.Double.Layout
import QueryExpr.Double.Read
import QueryExpr.Error
import QueryExpr.Text.Blank

/-!
# Conversion of values

A value is converted to a type when it is cast or when the branches of a CASE have to agree. Null
stays null, an indeterminate type leaves a value alone, and a text is read without the blanks
around it. A conversion that fails names the value's type and the target.
-/

namespace QueryExpr

/-- Lower case, for ASCII letters only. -/
def Text.lowerAscii (s : List Char) : String := String.ofList (s.map Char.toLower)

/-- `TRUE` and `FALSE` in any case, `1` and `0`. -/
def Text.readBool? (s : List Char) : Option Bool :=
  match Text.lowerAscii s with
  | "true" | "1" => some true
  | "false" | "0" => some false
  | _ => none

namespace Ty

/-- The readers of numerals know nothing of expressions, so their reports are foreign. -/
def numeralFault (fault : NumeralFault) : Fault := .foreign fault.message

/-- The value `ty` makes of a text, or the fault that explains why there is none. -/
def readText (ty : Ty) (s : String) : Except Fault Value :=
  let chars := Text.trim s.toList
  match ty with
  | bool =>
      match Text.readBool? chars with
      | some b => .ok (.bool b)
      | none => .error (.note "expected TRUE, FALSE, 1 or 0")
  | i32 => ((Text.readInt32 chars).map .i32).mapError numeralFault
  | i64 => ((Text.readInt64 chars).map .i64).mapError numeralFault
  | f64 => ((Double.read chars).map .f64).mapError numeralFault
  | string | null | unknown => .ok (.string s)

/--
The value of type `ty` that stands for `value`. Between numbers nothing is lost silently: a double
is rounded to the nearest integer, a half away from zero, and what does not fit is refused.
-/
def convert (ty : Ty) (value : Value) : Except Error Value :=
  let refused := Except.error (Error.conversion value ty)
  match ty, value with
  | _, .null => .ok .null
  | null, v | unknown, v => .ok v
  | bool, .bool b => .ok (.bool b)
  | i32, .i32 n => .ok (.i32 n)
  | i64, .i64 n => .ok (.i64 n)
  | f64, .f64 x => .ok (.f64 x)
  | string, .string s => .ok (.string s)
  | ty, .string s =>
      match ty.readText s with
      | .ok v => .ok v
      | .error fault => .error ((Error.of fault).context (Error.conversion value ty) false)
  | bool, .i32 n => .ok (.bool (n != 0))
  | bool, .i64 n => .ok (.bool (n != 0))
  | i32, .bool b => .ok (.i32 (if b then 1 else 0))
  | i32, .i64 n =>
      if Int32.minValue.toInt ≤ n.toInt ∧ n.toInt ≤ Int32.maxValue.toInt then
        .ok (.i32 (Int32.ofInt n.toInt))
      else refused
  | i32, .f64 x =>
      match x.toInt32? with
      | some n => .ok (.i32 n)
      | none => refused
  | i64, .bool b => .ok (.i64 (if b then 1 else 0))
  | i64, .i32 n => .ok (.i64 (Int64.ofInt n.toInt))
  | i64, .f64 x =>
      match x.toInt64? with
      | some n => .ok (.i64 n)
      | none => refused
  | f64, .bool b => .ok (.f64 (if b then Double.one else Double.zero))
  | f64, .i32 n => .ok (.f64 (Double.ofInt n.toInt))
  | f64, .i64 n => .ok (.f64 (Double.ofInt n.toInt))
  | string, .bool b => .ok (.string (if b then "TRUE" else "FALSE"))
  | string, .i32 n => .ok (.string (Text.writeInteger n.toInt))
  | string, .i64 n => .ok (.string (Text.writeInteger n.toInt))
  | string, .f64 x => .ok (.string (Layout.plain.write x))
  | bool, .f64 _ => refused

end Ty

namespace Value

/-- The truth value of a condition. Only booleans and null have one. -/
def truth : Value → Except Error (Option Bool)
  | null => .ok none
  | bool b => .ok (some b)
  | _ => .error (Error.evaluation .notBoolean)

/-- The boolean carried by a value; null carries none. -/
def toBool : Value → Except Error Bool
  | bool b => .ok b
  | v => .error (Error.conversion v .bool)

end Value

end QueryExpr
