import QueryExpr.Expr.Recursion

/-!
# What an expression demands

Which expressions need nothing from outside, and how many positional arguments an expression
reaches for.
-/

namespace QueryExpr.Expr

/-- Neither a column nor an argument occurs anywhere in the expression. -/
def isConst : Expr → Bool :=
  fold fun e parts =>
    match e with
    | arg _ | col _ _ => false
    | _ => parts.all id

theorem isConst_eq (e : Expr) :
    e.isConst = match e with
      | arg _ | col _ _ => false
      | e => e.children.all isConst := by
  rw [isConst, fold_eq]
  cases e <;> simp only [List.all_map] <;> rfl

/-- One more than the highest argument position, zero if there is none. -/
def argumentCount : Expr → Nat :=
  fold fun e parts =>
    match e with
    | arg position => position + 1
    | _ => parts.foldr max 0

theorem argumentCount_eq (e : Expr) :
    e.argumentCount = match e with
      | arg position => position + 1
      | e => (e.children.map argumentCount).foldr max 0 := by
  rw [argumentCount, fold_eq]
  cases e <;> rfl

end QueryExpr.Expr
