import QueryExpr.Plan

/-!
# Statements numbered in words

Argument positions and the numbers of placeholders are words of 64 bits. Whether a sum that is no
word stops the rendering, or loses its carry, is a choice of the build. The rendering is the same in
all else: the numbers of `Sql.Statement` are the exact ones, and those here are what a build makes
of them.
-/

namespace QueryExpr

/-- What a build does with a sum that is no word. -/
inductive Overflow where
  | stops
  | wraps
deriving DecidableEq, Repr

namespace Overflow

def add (o : Overflow) (a b : Nat) : Option Nat :=
  if a + b < UInt64.size then some (a + b)
  else
    match o with
    | stops => none
    | wraps => some ((a + b) % UInt64.size)

/-- The largest of several counts, zero if there are none. -/
def largest? (counts : List (Option Nat)) : Option Nat :=
  counts.foldr (fun count rest => return max (← count) (← rest)) (some 0)

end Overflow

variable (o : Overflow)

/-- One more than the highest argument position, as far as a word goes. -/
def Expr.argumentCount? : Expr → Option Nat :=
  fold fun e parts =>
    match e with
    | arg position => o.add position 1
    | _ => Overflow.largest? parts

/-- Numbers the pieces behind `count` arguments and the `listed` constants on the list so far. -/
def Piece.number? (count listed : Nat) : List Piece → Option (List Token)
  | [] => some []
  | .text s :: pieces => return .text s :: (← number? count listed pieces)
  | .argument position :: pieces => do
      let number ← o.add position 1
      return .slot number :: (← number? count listed pieces)
  | .bound _ :: pieces => do
      let number ← o.add count (listed + 1)
      return .slot number :: (← number? count (listed + 1) pieces)

namespace Expr

def toStatement? (dialect : Dialect) (parameters : List Value) (e : Expr) : Option Statement := do
  let pieces := e.pieces dialect
  let tokens ← Piece.number? o (← e.argumentCount? o) parameters.length pieces
  return ⟨String.join (tokens.map dialect.writeToken), parameters ++ pieces.filterMap Piece.bound?⟩

def toStatements? (dialect : Dialect) (parameters : List Value) :
    List Expr → Option (List String × List Value)
  | [] => some ([], parameters)
  | e :: es => do
      let first ← e.toStatement? o dialect parameters
      let rest ← toStatements? dialect first.parameters es
      return (first.sql :: rest.1, rest.2)

end Expr

/-- A plan has two texts, the canonical one first. -/
def Planner.prepare? (planner : Planner) (arguments : List Ty) (e : Expr) : Option Plan := do
  let plan := planner.prepare arguments e
  let canonical ← plan.expr.toStatement? o .canonical []
  let statement ← plan.expr.toStatement? o planner.dialect []
  return { plan with key := canonical.sql, statement }

end QueryExpr
