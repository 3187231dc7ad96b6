import QueryExpr.Double.Layout
import QueryExpr.Dump
import QueryExpr.Error
import QueryExpr.Expr
import QueryExpr.Text.Numeral

/-!
# Dumps of values, expressions and errors

What the structure of each of them looks like in a dump. The names are part of the output format.
-/

namespace QueryExpr

private def Dump.bool (b : Bool) : Dump := .atom (if b then "true" else "false")

def Ty.dump (t : Ty) : Dump := .atom t.name

def Value.dump : Value → Dump
  | null => .atom "Null"
  | bool b => .tuple "Bool" [Dump.bool b]
  | i32 n => .tuple "I32" [.atom (Text.writeInteger n.toInt)]
  | i64 n => .tuple "I64" [.atom (Text.writeInteger n.toInt)]
  | f64 x => .tuple "F64" [.atom (Layout.literal.write x)]
  | string s => .tuple "String" [Dump.quoted s]

namespace Expr

mutual

def dump : Expr → Dump
  | val v => v.dump
  | arg position => .record "ExprArg" [("position", .atom (toString position))]
  | col name ty => .record "ExprColumn" [("name", Dump.quoted name), ("ty", ty.dump)]
  | and xs => .record "ExprAnd" [("operands", .list (dumpList xs))]
  | or xs => .record "ExprOr" [("operands", .list (dumpList xs))]
  | cmp op l r =>
      .record "ExprBinaryOp" [("lhs", dump l), ("op", .atom op.symbol), ("rhs", dump r)]
  | case whens otherwise ty =>
      .record "ExprCase" [("whens", .list (dumpWhens whens)),
        ("else_expr", .option (dumpOption otherwise)), ("ty", .option (ty.map Ty.dump))]
  | cast x ty => .record "ExprCast" [("expr", dump x), ("ty", ty.dump)]
  | isNull negated x =>
      .record "ExprIsNull" [("negate", Dump.bool negated), ("expr", dump x)]
  | not x => .record "ExprNot" [("expr", dump x)]

def dumpList : List Expr → List Dump
  | [] => []
  | x :: xs => dump x :: dumpList xs

def dumpWhens : List (When Expr) → List Dump
  | [] => []
  | ⟨c, r⟩ :: ws =>
      .record "CaseWhen" [("condition", dump c), ("result", dump r)] :: dumpWhens ws

def dumpOption : Option Expr → Option Dump
  | none => none
  | some x => some (dump x)

end

end Expr

def Fault.dump : Fault → Dump
  | note message =>
      .tuple "Adhoc" [.record "AdhocError" [("message", Dump.quoted message)]]
  | evaluation reason =>
      .tuple "ExpressionEvaluationFailed"
        [.record "ExpressionEvaluationFailed" [("message", Dump.quoted reason.detail)]]
  | conversion value target =>
      .tuple "TypeConversion"
        [.record "TypeConversionError"
          [("value", value.dump), ("to_type", Dump.quoted target.name)]]
  | foreign message => .tuple "Foreign" [Dump.quoted message]

private def Fault.dumpChain (fault : Fault) : List Fault → Dump
  | [] => .record "Error" [("kind", fault.dump), ("cause", .option none)]
  | cause :: causes =>
      .record "Error" [("kind", fault.dump), ("cause", .option (some (cause.dumpChain causes)))]

def Error.dump (e : Error) : Dump := e.fault.dumpChain e.causes

end QueryExpr
