import QueryExpr.Value

/-!
# Query expressions

The expressions of a query's select list or filter: constants, columns, positional arguments,
connectives with any number of operands, comparisons, searched CASE, casts and tests for null.
-/

namespace QueryExpr

inductive Comparison where
  | eq
  | ne
  | ge
  | gt
  | le
  | lt
deriving DecidableEq, Repr, Inhabited

namespace Comparison

def all : List Comparison := [eq, ne, ge, gt, le, lt]

def symbol : Comparison → String
  | eq => "="
  | ne => "<>"
  | ge => ">="
  | gt => ">"
  | le => "<="
  | lt => "<"

def ofSymbol? (s : String) : Option Comparison := all.find? (·.symbol == s)

/-- The comparison that says the same of the operands in the other order. -/
def swap : Comparison → Comparison
  | eq => eq
  | ne => ne
  | ge => le
  | gt => lt
  | le => ge
  | lt => gt

@[simp] theorem swap_swap (op : Comparison) : op.swap.swap = op := by cases op <;> rfl

/-- Whether the comparison holds of operands ordered in this way. -/
def holds : Comparison → Ordering → Bool
  | eq, o => o == .eq
  | ne, o => o != .eq
  | ge, o => o != .lt
  | gt, o => o == .gt
  | le, o => o != .gt
  | lt, o => o == .lt

theorem holds_swap (op : Comparison) (o : Ordering) : op.swap.holds o.swap = op.holds o := by
  cases op <;> cases o <;> rfl

end Comparison

/-- One branch `WHEN condition THEN result`. -/
structure When (α : Type) where
  condition : α
  result : α
deriving Repr

def When.map {α β : Type} (f : α → β) (w : When α) : When β := ⟨f w.condition, f w.result⟩

inductive Expr where
  | val (value : Value)
  | arg (position : Nat)
  | col (name : String) (ty : Ty)
  | and (operands : List Expr)
  | or (operands : List Expr)
  | cmp (op : Comparison) (left right : Expr)
  /-- A searched CASE; `ty` is the type its result is converted to, once that is known. -/
  | case (whens : List (When Expr)) (otherwise : Option Expr) (ty : Option Ty)
  | cast (operand : Expr) (ty : Ty)
  | isNull (negated : Bool) (operand : Expr)
  | not (operand : Expr)

namespace Expr

instance : Inhabited Expr := ⟨val .null⟩

/-- The conjunction of two expressions; operands that are conjunctions are spliced in. -/
def conj : Expr → Expr → Expr
  | and xs, and ys => and (xs ++ ys)
  | and xs, y => and (xs ++ [y])
  | x, and ys => and (x :: ys)
  | x, y => and [x, y]

/-- The disjunction of two expressions; operands that are disjunctions are spliced in. -/
def disj : Expr → Expr → Expr
  | or xs, or ys => or (xs ++ ys)
  | or xs, y => or (xs ++ [y])
  | x, or ys => or (x :: ys)
  | x, y => or [x, y]

def value? : Expr → Option Value
  | val v => some v
  | _ => none

def isValue (e : Expr) : Bool := e.value?.isSome

def isNullValue : Expr → Bool
  | val .null => true
  | _ => false

/-- The expression is the constant `truth`. -/
def isTruth (truth : Bool) : Expr → Bool
  | val (.bool b) => b == truth
  | _ => false

def isArg : Expr → Bool
  | arg _ => true
  | _ => false

def isCase : Expr → Bool
  | case _ _ _ => true
  | _ => false

def isNot : Expr → Bool
  | not _ => true
  | _ => false

def isEquality : Expr → Bool
  | cmp .eq _ _ => true
  | _ => false

end Expr

end QueryExpr
