import QueryExpr.Expr

/-!
# Types of expressions

The type an expression evaluates to, given the declared types of the positional arguments. Columns
carry their own type. A CASE has its stored type, or else the type its results share.
-/

namespace QueryExpr

/-- The declared type of an argument, `unknown` if none was declared. -/
def Ty.ofArgument (arguments : List Ty) (position : Nat) : Ty :=
  arguments[position]?.getD .unknown

namespace Expr

variable (arguments : List Ty)

mutual

def infer : Expr → Ty
  | val v => v.ty
  | arg position => Ty.ofArgument arguments position
  | col _ ty => ty
  | and _ | or _ | cmp _ _ _ | isNull _ _ | not _ => .bool
  | cast _ ty => ty
  | case _ _ (some ty) => ty
  | case whens otherwise none => (inferOption (inferWhens .unknown whens) otherwise).orString

/-- Unifies the results of the branches into a type found so far. -/
def inferWhens (found : Ty) : List (When Expr) → Ty
  | [] => found
  | ⟨_, r⟩ :: ws => inferWhens (found.unify (infer r)) ws

def inferOption (found : Ty) : Option Expr → Ty
  | none => found
  | some x => found.unify (infer x)

end

end Expr

/-- The type the results of a CASE share. -/
def Ty.ofBranches (arguments : List Ty) (whens : List (When Expr)) (otherwise : Option Expr) : Ty :=
  (Expr.case whens otherwise none).infer arguments

end QueryExpr
