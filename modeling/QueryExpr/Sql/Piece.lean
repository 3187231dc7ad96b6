import QueryExpr.Expr
import QueryExpr.Sql.Dialect

/-!
# Pieces of a statement

An expression is rendered to pieces first: fixed text, arguments and constants to bind, from left
to right. Which number a placeholder gets is decided when the pieces are put together.
-/

namespace QueryExpr

inductive Piece where
  | text (s : String)
  | argument (position : Nat)
  | bound (value : Value)
deriving DecidableEq, Repr

namespace Piece

def bound? : Piece → Option Value
  | bound v => some v
  | _ => none

end Piece

/-- Null is part of the text in every dialect; any other constant is bound, or written as it is. -/
def Dialect.constant (dialect : Dialect) (v : Value) : Piece :=
  match v, dialect with
  | .null, _ | _, .canonical => .text v.literal
  | _, _ => .bound v

namespace Expr

/-- Operands that would run into the text around them are put in parentheses. -/
def needsParentheses : Expr → Bool
  | and _ | or _ | not _ | cmp _ _ _ | isNull _ _ => true
  | _ => false

def asOperand (e : Expr) (pieces : List Piece) : List Piece :=
  if e.needsParentheses then .text "(" :: pieces ++ [.text ")"] else pieces

variable (dialect : Dialect)

mutual

def pieces : Expr → List Piece
  | val v => [dialect.constant v]
  | arg position => [.argument position]
  | col name _ => [.text (dialect.writeName name)]
  | and xs => [Piece.text " AND "].intercalate (operandPieces xs)
  | or xs => [Piece.text " OR "].intercalate (operandPieces xs)
  | cmp op l r =>
      asOperand l (pieces l) ++ .text (" " ++ op.symbol ++ " ") :: asOperand r (pieces r)
  | case whens otherwise _ =>
      .text "CASE" :: whenPieces whens ++ elsePieces otherwise ++ [.text " END"]
  | cast x ty =>
      if ty.isIndeterminate then pieces x
      else .text "CAST(" :: pieces x ++ [.text (" AS " ++ dialect.typeName ty ++ ")")]
  | isNull negated x =>
      asOperand x (pieces x) ++ [.text (if negated then " IS NOT NULL" else " IS NULL")]
  | not x => .text "NOT " :: asOperand x (pieces x)

def operandPieces : List Expr → List (List Piece)
  | [] => []
  | x :: xs => asOperand x (pieces x) :: operandPieces xs

def whenPieces : List (When Expr) → List Piece
  | [] => []
  | ⟨c, r⟩ :: ws => .text " WHEN " :: pieces c ++ .text " THEN " :: pieces r ++ whenPieces ws

def elsePieces : Option Expr → List Piece
  | none => []
  | some x => .text " ELSE " :: pieces x

end

end Expr

end QueryExpr
