import QueryExpr.Case

/-!
# Expecting a kind of expression

Taking an expression apart under the assumption that it is of a certain kind; another kind is a
mismatch.
-/

namespace QueryExpr

inductive Mismatch where
  | noValue
  | noCase
  | noString
deriving DecidableEq, Repr

def Mismatch.message : Mismatch → String
  | noValue => "expected `Value`"
  | noCase => "expected `Case`"
  | noString => "expected `String`"

namespace Expr

def expectValue (e : Expr) : Except Mismatch Value :=
  match e.value? with
  | some v => .ok v
  | none => .error .noValue

def expectCase (e : Expr) : Except Mismatch Case :=
  match e.case? with
  | some c => .ok c
  | none => .error .noCase

def expectString (e : Expr) : Except Mismatch String := do
  let v ← e.expectValue
  match v.text? with
  | some s => .ok s
  | none => .error .noString

end Expr

end QueryExpr
