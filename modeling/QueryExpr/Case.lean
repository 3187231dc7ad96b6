import QueryExpr.Expr.Recursion

/-!
# CASE expressions as records

The parts of a searched CASE on their own, and drafts that collect them. A draft takes all branches
before the ELSE and at most one ELSE; a step that breaks this is refused and changes nothing. Its
room for branches doubles whenever it is full.
-/

namespace QueryExpr

structure Case where
  whens : List (When Expr)
  otherwise : Option Expr
  ty : Option Ty

namespace Case

def toExpr (c : Case) : Expr := .case c.whens c.otherwise c.ty

/-- Every branch counts for its condition and its result. -/
def size (c : Case) : Nat := 2 * c.whens.length + c.otherwise.toList.length

def isEmpty (c : Case) : Bool := c.whens.isEmpty && c.otherwise.isNone

/-- Conditions and results in the order of the branches, the ELSE result last. -/
def parts (c : Case) : List Expr := Expr.whenParts c.whens ++ c.otherwise.toList

end Case

def Expr.case? : Expr → Option Case
  | case whens otherwise ty => some ⟨whens, otherwise, ty⟩
  | _ => none

inductive Case.Fault where
  | branchAfterElse
  | secondElse
deriving DecidableEq, Repr

def Case.Fault.message : Case.Fault → String
  | branchAfterElse => "WHEN branch added after the ELSE branch"
  | secondElse => "ELSE branch added twice"

structure Case.Draft where
  whens : List (When Expr)
  otherwise : Option Expr
  /-- Number of branches there is room for. -/
  capacity : Nat

namespace Case.Draft

def initialCapacity : Nat := 2

def empty : Draft := ⟨[], none, initialCapacity⟩

inductive Step where
  | branch (w : When Expr)
  | otherwise (result : Expr)

/-- The first thing that every step does, before it changes anything. -/
def requireOpen (fault : Fault) : EStateM Fault Draft Unit := do
  if (← get).otherwise.isSome then throw fault

/-- Doubles the room if there is none left for another branch. -/
def grow : EStateM Fault Draft Unit :=
  modify fun d =>
    if d.whens.length = d.capacity then
      { d with capacity := d.capacity + max d.capacity initialCapacity }
    else d

/-- A step changes the draft in place, and a fault ends it where it has got to. -/
def step : Step → EStateM Fault Draft Unit
  | .branch w => do
      requireOpen .branchAfterElse
      grow
      modify fun d => { d with whens := d.whens ++ [w] }
  | .otherwise result => do
      requireOpen .secondElse
      modify fun d => { d with otherwise := some result }

/-- The draft that the step leaves behind, be it taken or refused. -/
def advance (d : Draft) (s : Step) : Draft :=
  match (step s).run d with
  | .ok _ left => left
  | .error _ left => left

/-- The fault for which the step is refused. -/
def refusal (d : Draft) (s : Step) : Option Fault :=
  match (step s).run d with
  | .ok _ _ => none
  | .error fault _ => some fault

/-- The drafts a list of steps leads to, each with the fault for which its step was refused. -/
def history (d : Draft) : List Step → List (Draft × Option Fault)
  | [] => []
  | s :: steps => (d.advance s, d.refusal s) :: history (d.advance s) steps

def run (steps : List Step) : Draft := steps.foldl advance empty

def finalize (d : Draft) (ty : Option Ty) : Case := ⟨d.whens, d.otherwise, ty⟩

def size (d : Draft) : Nat := (d.finalize none).size

def isEmpty (d : Draft) : Bool := (d.finalize none).isEmpty

end Case.Draft

end QueryExpr
