import QueryExpr.Expr

/-!
# Equality of expressions as queries see it

Two expressions are equal when they have the same shape and their constants are equal as values. So
an expression with a NaN in it differs from itself.
-/

namespace QueryExpr.Expr

mutual

def eqv : Expr → Expr → Bool
  | val v, val w => v.eqv w
  | arg m, arg n => m == n
  | col s t, col s' t' => s == s' && t == t'
  | and xs, and ys => eqvList xs ys
  | or xs, or ys => eqvList xs ys
  | cmp op l r, cmp op' l' r' => op == op' && eqv l l' && eqv r r'
  | case ws o t, case ws' o' t' => eqvWhens ws ws' && eqvOption o o' && t == t'
  | cast x t, cast x' t' => eqv x x' && t == t'
  | isNull n x, isNull n' x' => n == n' && eqv x x'
  | not x, not x' => eqv x x'
  | _, _ => false

def eqvList : List Expr → List Expr → Bool
  | [], [] => true
  | x :: xs, y :: ys => eqv x y && eqvList xs ys
  | _, _ => false

def eqvWhens : List (When Expr) → List (When Expr) → Bool
  | [], [] => true
  | ⟨c, r⟩ :: ws, w :: ws' => eqv c w.condition && eqv r w.result && eqvWhens ws ws'
  | _, _ => false

def eqvOption : Option Expr → Option Expr → Bool
  | none, none => true
  | some x, some y => eqv x y
  | _, _ => false

end

end QueryExpr.Expr
