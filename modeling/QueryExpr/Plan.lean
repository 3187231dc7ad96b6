import QueryExpr.Simplify
import QueryExpr.Sql.Statement

/-!
# Plans

A plan is an expression made ready for many evaluations: simplified, or only given its CASE types,
with its result type and its text. The canonical text together with the type identifies a plan.
-/

namespace QueryExpr

/-- Gives a CASE that has no type yet the one its results share. -/
def Expr.attachType (arguments : List Ty) : Expr → Expr
  | case whens otherwise none =>
      case whens otherwise (some (Ty.ofBranches arguments whens otherwise))
  | e => e

/-- Gives every CASE a type, inner ones first, and changes nothing else. -/
def Expr.resolveTypes (arguments : List Ty) (e : Expr) : Expr := e.rebuild (attachType arguments)

structure Plan where
  expr : Expr
  ty : Ty
  /-- The canonical text. -/
  key : String
  statement : Statement

/-- How expressions are prepared. -/
structure Planner where
  dialect : Dialect
  simplifies : Bool
deriving DecidableEq, Repr

namespace Planner

def default : Planner := ⟨.canonical, true⟩

def prepare (planner : Planner) (arguments : List Ty) (e : Expr) : Plan :=
  let expr := if planner.simplifies then e.simplify arguments else e.resolveTypes arguments
  ⟨expr, expr.infer arguments, expr.canonicalText, expr.toStatement planner.dialect []⟩

end Planner

namespace Plan

def cacheKey (plan : Plan) : String × Ty := (plan.key, plan.ty)

def eval (plan : Plan) (input : Input) : Outcome Value := plan.expr.eval input

end Plan

end QueryExpr
