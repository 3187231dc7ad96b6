import QueryExpr.Walk

/-!
# Recorded walks

Walks that write down where they have been, and change names and constants as they go.
-/

namespace QueryExpr

/-- One station of a walk from the root. -/
inductive Station where
  | expr
  | node (e : Expr)
  | branch

/-- Constants that equal `old` become `new`. -/
def Value.replace (old new v : Value) : Value := if v.eqv old then new else v

/-- The changes a walk makes to the leaves. -/
structure LeafChange where
  column : String → String
  value : Value → Value

namespace LeafChange

/-- Appends a suffix to every column's name. -/
def rename (suffix : String) : LeafChange := ⟨(· ++ suffix), id⟩

def replacing (c : LeafChange) (old new : Value) : LeafChange := ⟨c.column, Value.replace old new⟩

variable (c : LeafChange)

/-- Makes the changes and records nothing. -/
def visitor : Visitor Id where
  column := c.column
  value := c.value

/-- Makes the changes and records every station. -/
def recorder : Visitor (StateM (List Station)) where
  expr _ := modify (· ++ [.expr])
  node e := modify (· ++ [.node e])
  branch _ := modify (· ++ [.branch])
  column name := pure (c.column name)
  value v := pure (c.value v)

/-- The stations of a walk from the root, and the changed expression. -/
def walk (e : Expr) : List Station × Expr :=
  let (e', log) := (c.recorder.visit e).run []
  (log, e')

/--
The walk that starts below the root. For a CASE the branches are walked once more, with what they
become left out.
-/
def walkBelow (e : Expr) : List Station × Expr :=
  let (e', log) := (c.recorder.below e).run []
  let again :=
    match e with
    | .case whens _ _ => ((c.recorder.visitWhens whens).run []).2
    | _ => []
  (log ++ again, e')

/-- The nodes in the order in which they are finished, and the expression with changed constants. -/
def walkUp (e : Expr) : List Expr × Expr :=
  let step (x : Expr) : StateM (List Expr) Expr := do
    modify (· ++ [x])
    match x with
    | .val v => return .val (c.value v)
    | x => return x
  let (e', log) := (e.rebuildM step).run []
  (log, e')

end LeafChange

def Expr.renameColumns (suffix : String) (e : Expr) : Expr :=
  (LeafChange.rename suffix).visitor.visit e

end QueryExpr
