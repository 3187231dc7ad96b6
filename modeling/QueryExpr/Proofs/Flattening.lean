import QueryExpr.Proofs.Preservation

/-!
# Putting two expressions under one connective

The operands of both sides follow one another under a single connective. So it does not matter which
two of three expressions are put together first, and the evaluation meets the operands where it would
meet them in a connective of the two sides as they are.
-/

namespace QueryExpr.Expr

open QueryExpr.Simplify

/-- Puts two expressions under a connective and takes apart a side with the same connective. -/
structure Joins (decisive : Bool) (connective : List Expr → Expr) (parts : Expr → List Expr)
    (join : Expr → Expr → Expr) : Prop extends Splits connective parts where
  eval : ∀ input xs, (connective xs).eval input = evalOperands input decisive false xs
  /-- An expression is one operand, or it is worth what its operands are worth together. -/
  eval_parts : ∀ input x,
    parts x = [x] ∨ x.eval input = evalOperands input decisive false (parts x)
  join_eq : ∀ l r, join l r = connective (parts l ++ parts r)

theorem joins_conj : Joins false and conjuncts conj where
  toSplits := splits_conjuncts
  eval _ _ := rfl
  eval_parts _ := eval_conjuncts
  join_eq l r := by cases l <;> cases r <;> rfl

theorem joins_disj : Joins true or disjuncts disj where
  toSplits := splits_disjuncts
  eval _ _ := rfl
  eval_parts _ := eval_disjuncts
  join_eq l r := by cases l <;> cases r <;> rfl

namespace Joins

variable {decisive : Bool} {connective : List Expr → Expr} {parts : Expr → List Expr}
variable {join : Expr → Expr → Expr} (hj : Joins decisive connective parts join)
include hj

theorem assoc (a b c : Expr) : join a (join b c) = join (join a b) c := by
  have hparts : ∀ l r, parts (join l r) = parts l ++ parts r := by
    intro l r
    rw [hj.join_eq, hj.same]
  rw [hj.join_eq, hj.join_eq (join a b), hparts, hparts, List.append_assoc]

theorem eval_join (input : Input) (l r : Expr) :
    (join l r).eval input = (connective [l, r]).eval input := by
  have hflat : parts l ++ parts r = [l, r].flatMap parts := by
    rw [List.flatMap_cons, List.flatMap_singleton]
  rw [hj.join_eq, hj.eval, hj.eval, hflat, evalOperands_flatMap (hj.eval_parts input)]

end Joins

/--
Three expressions make one tree, whichever two of them are put under AND first. Two of them under one
AND evaluate as the AND of the two, nested or not: to the same value or error and with the same
look-ups. The same holds of OR.
-/
theorem flattening_laws (a b c l r : Expr) (input : Input) :
    (conj a (conj b c) = conj (conj a b) c ∧
        (conj l r).eval input = (and [l, r]).eval input) ∧
      disj a (disj b c) = disj (disj a b) c ∧
        (disj l r).eval input = (or [l, r]).eval input :=
  ⟨⟨joins_conj.assoc a b c, joins_conj.eval_join input l r⟩,
    joins_disj.assoc a b c, joins_disj.eval_join input l r⟩

end QueryExpr.Expr
