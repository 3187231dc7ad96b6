import QueryExpr.Expr

/-!
# Walks over expressions

Two ways through an expression. A visitor sees every node before its parts and may change names and
constants on the way down; `rebuildM` hands over every node after its parts and may replace it by
anything.
-/

namespace QueryExpr

variable {m : Type → Type} [Monad m]

/-- What happens at each station of a walk from the root. By default nothing does. -/
structure Visitor (m : Type → Type) [Monad m] where
  /-- Before every expression, whatever it is. -/
  expr : Expr → m Unit := fun _ => pure ()
  /-- At a node, before its parts. -/
  node : Expr → m Unit := fun _ => pure ()
  /-- Before the condition of a branch. -/
  branch : When Expr → m Unit := fun _ => pure ()
  column : String → m String := pure
  value : Value → m Value := pure

namespace Visitor

variable (visitor : Visitor m)

mutual

/-- The node and all that is below it, without the call for the expression itself. -/
def below : Expr → m Expr
  | .val v => do
      visitor.node (.val v)
      return .val (← visitor.value v)
  | .arg position => do
      visitor.node (.arg position)
      return .arg position
  | .col name ty => do
      visitor.node (.col name ty)
      return .col (← visitor.column name) ty
  | .and xs => do
      visitor.node (.and xs)
      return .and (← visitList xs)
  | .or xs => do
      visitor.node (.or xs)
      return .or (← visitList xs)
  | .cmp op l r => do
      visitor.node (.cmp op l r)
      visitor.expr l
      let l' ← below l
      visitor.expr r
      let r' ← below r
      return .cmp op l' r'
  | .case whens otherwise ty => do
      visitor.node (.case whens otherwise ty)
      let whens' ← visitWhens whens
      let otherwise' ← visitOption otherwise
      return .case whens' otherwise' ty
  | .cast x ty => do
      visitor.node (.cast x ty)
      visitor.expr x
      return .cast (← below x) ty
  | .isNull negated x => do
      visitor.node (.isNull negated x)
      visitor.expr x
      return .isNull negated (← below x)
  | .not x => do
      visitor.node (.not x)
      visitor.expr x
      return .not (← below x)

def visitList : List Expr → m (List Expr)
  | [] => return []
  | x :: xs => do
      visitor.expr x
      let x' ← below x
      return x' :: (← visitList xs)

def visitWhens : List (When Expr) → m (List (When Expr))
  | [] => return []
  | ⟨c, r⟩ :: ws => do
      visitor.branch ⟨c, r⟩
      visitor.expr c
      let c' ← below c
      visitor.expr r
      let r' ← below r
      return ⟨c', r'⟩ :: (← visitWhens ws)

def visitOption : Option Expr → m (Option Expr)
  | none => return none
  | some x => do
      visitor.expr x
      return some (← below x)

end

def visit (e : Expr) : m Expr := do
  visitor.expr e
  visitor.below e

end Visitor

namespace Expr

variable (f : Expr → m Expr)

mutual

/-- Hands over every node after its parts, from left to right. -/
def rebuildM : Expr → m Expr
  | val v => f (val v)
  | arg position => f (arg position)
  | col name ty => f (col name ty)
  | and xs => do f (and (← rebuildListM xs))
  | or xs => do f (or (← rebuildListM xs))
  | cmp op l r => do
      let l' ← rebuildM l
      let r' ← rebuildM r
      f (cmp op l' r')
  | case whens otherwise ty => do
      let whens' ← rebuildWhensM whens
      let otherwise' ← rebuildOptionM otherwise
      f (case whens' otherwise' ty)
  | cast x ty => do f (cast (← rebuildM x) ty)
  | isNull negated x => do f (isNull negated (← rebuildM x))
  | not x => do f (not (← rebuildM x))

def rebuildListM : List Expr → m (List Expr)
  | [] => return []
  | x :: xs => do
      let x' ← rebuildM x
      return x' :: (← rebuildListM xs)

def rebuildWhensM : List (When Expr) → m (List (When Expr))
  | [] => return []
  | ⟨c, r⟩ :: ws => do
      let c' ← rebuildM c
      let r' ← rebuildM r
      return ⟨c', r'⟩ :: (← rebuildWhensM ws)

def rebuildOptionM : Option Expr → m (Option Expr)
  | none => return none
  | some x => return some (← rebuildM x)

end

end Expr

end QueryExpr
