import QueryExpr.Value

/-!
# Errors

An error is a fault with the faults that led to it, outermost first. Context is added on the
outside; the text of an error shows the whole chain.
-/

namespace QueryExpr

/-- Why an expression has no value for some input. -/
inductive EvaluationFault where
  | notBoolean
  | unresolvedColumn (name : String)
  | unresolvedArgument (position : Nat)
  | incomparable (left right : Ty)
  | other (detail : String)
deriving DecidableEq, Repr

namespace EvaluationFault

def detail : EvaluationFault → String
  | notBoolean => "expected boolean value"
  | unresolvedColumn name => "failed to resolve column `" ++ name ++ "`"
  | unresolvedArgument position => "failed to resolve argument " ++ toString position
  | incomparable left right => "cannot compare " ++ left.name ++ " with " ++ right.name
  | other detail => detail

end EvaluationFault

inductive Fault where
  /-- A bare message. -/
  | note (message : String)
  | evaluation (reason : EvaluationFault)
  | conversion (value : Value) (target : Ty)
  /-- The report of a reader outside the expression language, kept as its text. -/
  | foreign (message : String)
deriving DecidableEq, Repr

namespace Fault

def message : Fault → String
  | note message => message
  | evaluation reason => "expression evaluation failed: " ++ reason.detail
  | conversion value target => "cannot convert " ++ value.ty.name ++ " to " ++ target.name
  | foreign message => message

end Fault

structure Error where
  fault : Fault
  /-- The chain of causes, outermost first. -/
  causes : List Fault
deriving DecidableEq, Repr

namespace Error

def of (fault : Fault) : Error := ⟨fault, []⟩

def note (message : String) : Error := of (.note message)

def evaluation (reason : EvaluationFault) : Error := of (.evaluation reason)

def conversion (value : Value) (target : Ty) : Error := of (.conversion value target)

def foreign (message : String) : Error := of (.foreign message)

def chain (e : Error) : List Fault := e.fault :: e.causes

def message (e : Error) : String := ": ".intercalate (e.chain.map Fault.message)

def isEvaluation (e : Error) : Bool :=
  match e.fault with
  | .evaluation _ => true
  | _ => false

def isConversion (e : Error) : Bool :=
  match e.fault with
  | .conversion _ _ => true
  | _ => false

/-- The text of the foreign report the outermost fault stands for. -/
def foreignText? (e : Error) : Option String :=
  match e.fault with
  | .foreign message => some message
  | _ => none

/--
Adds `outer` on the outside of `e`. A context that is in use elsewhere, or has causes of its own,
is left as it is: its own text, without its causes, becomes the new outermost note.
-/
def context (e outer : Error) (inUse : Bool) : Error :=
  if inUse || !outer.causes.isEmpty then ⟨.note outer.fault.message, e.chain⟩
  else ⟨outer.fault, e.chain⟩

end Error

end QueryExpr
