import QueryExpr.Expr.Demand
import QueryExpr.Sql.Piece

/-!
# Statements

The text of an expression together with the constants bound by it. An argument at position `n` has
placeholder `n + 1`; bound constants are numbered after all arguments the expression reaches for,
counting on from the constants that are in the parameter list already. Counts and numbers are exact
here, without a limit; `Sql.Overflow` has what becomes of them in words of 64 bits.
-/

namespace QueryExpr

/-- A piece whose number is known. -/
inductive Token where
  | text (s : String)
  | slot (number : Nat)
deriving DecidableEq, Repr

/-- Numbers the pieces, with `before` numbers taken when the first constant is bound. -/
def Piece.number (before : Nat) : List Piece → List Token
  | [] => []
  | .text s :: pieces => .text s :: number before pieces
  | .argument position :: pieces => .slot (position + 1) :: number before pieces
  | .bound _ :: pieces => .slot (before + 1) :: number (before + 1) pieces

/-- What follows is numbered on from the constants bound so far. -/
theorem Piece.number_append (before : Nat) (ps qs : List Piece) :
    number before (ps ++ qs) =
      number before ps ++ number (before + (ps.filterMap bound?).length) qs := by
  induction ps generalizing before with
  | nil => rfl
  | cons p ps ih =>
      cases p with
      | text s => exact congrArg (Token.text s :: ·) (ih before)
      | argument position => exact congrArg (Token.slot (position + 1) :: ·) (ih before)
      | bound v =>
          have hcount : before + (List.filterMap bound? (bound v :: ps)).length =
              before + 1 + (ps.filterMap bound?).length := by
            change before + ((ps.filterMap bound?).length + 1) = _
            omega
          rw [hcount]
          exact congrArg (Token.slot (before + 1) :: ·) (ih (before + 1))

def Dialect.writeToken (dialect : Dialect) : Token → String
  | .text s => s
  | .slot number => dialect.placeholder number

structure Statement where
  sql : String
  parameters : List Value
deriving DecidableEq, Repr

namespace Expr

/-- Renders an expression, appending what it binds to `parameters`. -/
def toStatement (dialect : Dialect) (parameters : List Value) (e : Expr) : Statement :=
  let pieces := e.pieces dialect
  let tokens := Piece.number (e.argumentCount + parameters.length) pieces
  ⟨String.join (tokens.map dialect.writeToken), parameters ++ pieces.filterMap Piece.bound?⟩

/-- The text that identifies an expression. -/
def canonicalText (e : Expr) : String := (e.toStatement .canonical []).sql

/-- Renders expressions one after the other onto one parameter list. -/
def toStatements (dialect : Dialect) (parameters : List Value) :
    List Expr → List String × List Value
  | [] => ([], parameters)
  | e :: es =>
      let first := e.toStatement dialect parameters
      let rest := toStatements dialect first.parameters es
      (first.sql :: rest.1, rest.2)

end Expr

end QueryExpr
