import QueryExpr.Value

/-!
# Inputs of an evaluation

An expression is evaluated against something that answers look-ups of columns and of positional
arguments. A row is the common case: named columns, kept in the order in which the names were first
bound, and a list of arguments.
-/

namespace QueryExpr

/-- One question put to the input. -/
inductive Lookup where
  | column (name : String)
  | argument (position : Nat)
deriving DecidableEq, Repr

/--
What answers the look-ups. The answer is settled by the name of the column or the position of the
argument alone: however often and in whatever order an evaluation asks, and whatever type a column
is declared with, it is the same one.
-/
structure Input where
  column : String → Option Value
  argument : Nat → Option Value

namespace Input

/-- Answers nothing. -/
def empty : Input := ⟨fun _ => none, fun _ => none⟩

/-- Answers for arguments only. -/
def ofArguments (arguments : List Value) : Input := ⟨fun _ => none, fun n => arguments[n]?⟩

def answer? (input : Input) : Lookup → Option Value
  | .column name => input.column name
  | .argument position => input.argument position

end Input

structure Row where
  columns : List (String × Value)
  arguments : List Value
deriving DecidableEq, Repr, Inhabited

namespace Row

def empty : Row := ⟨[], []⟩

def bindColumn (name : String) (value : Value) :
    List (String × Value) → List (String × Value)
  | [] => [(name, value)]
  | (n, v) :: columns =>
      if n = name then (n, value) :: columns else (n, v) :: bindColumn name value columns

/-- A name that is bound already keeps its place and gets the new value. -/
def bind (row : Row) (name : String) (value : Value) : Row :=
  ⟨bindColumn name value row.columns, row.arguments⟩

def pushArgument (row : Row) (value : Value) : Row := ⟨row.columns, row.arguments ++ [value]⟩

def ofBindings (bindings : List (String × Value)) (arguments : List Value) : Row :=
  ⟨(bindings.foldl (fun row b => row.bind b.1 b.2) empty).columns, arguments⟩

def get? (row : Row) (name : String) : Option Value := row.columns.lookup name

def names (row : Row) : List String := row.columns.map (·.1)

def toInput (row : Row) : Input := ⟨row.get?, fun n => row.arguments[n]?⟩

end Row

end QueryExpr
