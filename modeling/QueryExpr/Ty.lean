/-!
# Expression types

The types an expression can have, and the type that several branches share. `unknown` stands for a
type that is not determined yet and `null` is the type of the null literal; neither says anything
about the values, so both are called indeterminate.
-/

namespace QueryExpr

inductive Ty where
  | bool
  | f64
  | i32
  | i64
  | string
  | null
  | unknown
deriving DecidableEq, Repr, Inhabited

namespace Ty

def all : List Ty := [bool, f64, i32, i64, string, null, unknown]

def name : Ty → String
  | bool => "Bool"
  | f64 => "F64"
  | i32 => "I32"
  | i64 => "I64"
  | string => "String"
  | null => "Null"
  | unknown => "Unknown"

def ofName? (s : String) : Option Ty := all.find? (·.name == s)

def isNumeric : Ty → Bool
  | i32 | i64 | f64 => true
  | _ => false

def isIndeterminate : Ty → Bool
  | null | unknown => true
  | _ => false

/-- Values of a type convert to every type of higher rank. -/
def rank : Ty → Nat
  | unknown => 0
  | null => 1
  | string => 2
  | bool => 3
  | i32 => 4
  | i64 => 5
  | f64 => 6

/-- The type of higher rank. -/
def unify (a b : Ty) : Ty := if a.rank < b.rank then b else a

/-- What a type that never became concrete is taken to be. -/
def orString (t : Ty) : Ty := if t.isIndeterminate then string else t

/-- The type found so far after each of the given types. -/
def unifySteps (found : Ty) : List Ty → List Ty
  | [] => []
  | t :: ts => found.unify t :: unifySteps (found.unify t) ts

@[simp] theorem unify_unknown_left (t : Ty) : unify unknown t = t := by cases t <;> rfl

@[simp] theorem unify_unknown_right (t : Ty) : unify t unknown = t := by cases t <;> rfl

end Ty

end QueryExpr
