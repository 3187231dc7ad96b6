import QueryExpr.Case
import QueryExpr.Eval
import QueryExpr.Expr.Demand
import QueryExpr.Typing

/-!
# Simplification

One pass from the leaves to the root. At every node a local rule drops what cannot matter, and a
node with nothing but constants below it is replaced by its value, unless evaluating it fails: then
the failure is left to the evaluation. A CASE is passed through branch by branch, as long as no
branch is known to be the one that is selected; a CASE that stays one records the type its results
share.
-/

namespace QueryExpr

namespace Simplify

def conjuncts : Expr → List Expr
  | .and xs => xs
  | x => [x]

def disjuncts : Expr → List Expr
  | .or xs => xs
  | x => [x]

/--
A connective over operands: the constant that decides it decides at once, the other one is dropped,
and a single operand stands for itself.
-/
def connect (decisive : Bool) (connective : List Expr → Expr) (operands : List Expr) : Expr :=
  if operands.any (Expr.isTruth decisive) then .val (.bool decisive)
  else
    match operands.filter (fun x => !x.isTruth (!decisive)) with
    | [] => .val (.bool (!decisive))
    | [x] => x
    | xs => connective xs

/-- A constant null makes the comparison null; a constant stands on the right. -/
def compareOperands (op : Comparison) (left right : Expr) : Expr :=
  if left.isNullValue || right.isNullValue then .val .null
  else if left.isValue && !right.isValue then .cmp op.swap right left
  else .cmp op left right

/-- A cast that changes nothing is dropped. -/
def castOperand (arguments : List Ty) (x : Expr) (ty : Ty) : Expr :=
  if ty.isIndeterminate || x.infer arguments == ty then x else .cast x ty

/-- A cast that cannot fail is null exactly when its operand is. -/
def castCannotFail (arguments : List Ty) (x : Expr) (ty : Ty) : Bool :=
  ty.isIndeterminate || x.infer arguments == ty || x.infer arguments == .null

def testNull (arguments : List Ty) (negated : Bool) : Expr → Expr
  | .cast x ty =>
      if castCannotFail arguments x ty then .isNull negated x else .isNull negated (.cast x ty)
  | .val v => .val (.bool (v.isNull != negated))
  | x => .isNull negated x

def negate : Expr → Expr
  | .not x => x
  | x => .not x

/-- Replaces an expression that needs no input by its value, if it has one. -/
def foldConst (e : Expr) : Expr :=
  if e.isConst then
    match e.evalConst with
    | .ok v => .val v
    | .error _ => e
  else e

/-- Whether a condition selects its branch, if that is known before any input is. -/
def decision? (condition : Expr) : Option Bool :=
  if condition.isConst then
    match condition.evalConst.bind Value.truth with
    | .ok truth => some (truth.getD false)
    | .error _ => none
  else none

/-- The rule for a node that is no CASE, once its parts are simplified. -/
def rule (arguments : List Ty) : Expr → Expr
  | .and xs => foldConst (connect false .and (xs.flatMap conjuncts))
  | .or xs => foldConst (connect true .or (xs.flatMap disjuncts))
  | .cmp op l r => foldConst (compareOperands op l r)
  | .cast x ty => foldConst (castOperand arguments x ty)
  | .isNull negated x => foldConst (testNull arguments negated x)
  | .not x => foldConst (negate x)
  | e => e

/-- What is known of a CASE when some of its branches are simplified. -/
structure Progress where
  /-- Every condition so far is known never to select its branch. -/
  noneSelected : Bool
  /-- The type the results so far share. -/
  ty : Ty
  draft : Case.Draft

namespace Progress

def start : Progress := ⟨true, .unknown, .empty⟩

variable (arguments : List Ty)

/-- Keeps a simplified branch. -/
def collect (p : Progress) (w : When Expr) : Progress :=
  ⟨p.noneSelected, p.ty.unify (w.result.infer arguments), p.draft.advance (.branch w)⟩

/--
Takes the next simplified branch. If it is the first that may be selected and is known to be, its
result stands for the whole CASE, and no other branch is looked at.
-/
def branch (p : Progress) (w : When Expr) : Except Expr Progress :=
  if p.noneSelected then
    match decision? w.condition with
    | some true => .error w.result
    | some false => .ok (p.collect arguments w)
    | none => .ok (collect arguments { p with noneSelected := false } w)
  else .ok (p.collect arguments w)

/-- The CASE of what is collected. Results that share no type are taken for texts. -/
def complete (p : Progress) : Expr :=
  let ty := if p.ty.isIndeterminate then .string else p.ty
  (p.draft.finalize (some ty)).toExpr

/-- Behind the last branch only the simplified ELSE is left to look at. -/
def finish (p : Progress) : Option Expr → Expr
  | some x =>
      if p.noneSelected then x
      else
        complete { p with
          ty := p.ty.unify (x.infer arguments)
          draft := p.draft.advance (.otherwise x) }
  | none => if p.noneSelected then .val .null else p.complete

end Progress

end Simplify

namespace Expr

open Simplify

variable (arguments : List Ty)

mutual

/-- Simplifies an expression that will be evaluated with arguments of the given types. -/
def simplify : Expr → Expr
  | val v => val v
  | arg position => arg position
  | col name ty => col name ty
  | and xs => rule arguments (and (simplifyList xs))
  | or xs => rule arguments (or (simplifyList xs))
  | cmp op l r => rule arguments (cmp op (simplify l) (simplify r))
  | case whens otherwise _ =>
      match simplifyBranches .start whens with
      | .error result => result
      | .ok progress => progress.finish arguments (simplifyOption otherwise)
  | cast x ty => rule arguments (cast (simplify x) ty)
  | isNull negated x => rule arguments (isNull negated (simplify x))
  | not x => rule arguments (not (simplify x))

def simplifyList : List Expr → List Expr
  | [] => []
  | x :: xs => simplify x :: simplifyList xs

/-- Simplifies the branches of a CASE until one is known to be selected. -/
def simplifyBranches (progress : Progress) : List (When Expr) → Except Expr Progress
  | [] => .ok progress
  | ⟨c, r⟩ :: ws => do
      let progress ← progress.branch arguments ⟨simplify c, simplify r⟩
      simplifyBranches progress ws

def simplifyOption : Option Expr → Option Expr
  | none => none
  | some x => some (simplify x)

end

end Expr

end QueryExpr
