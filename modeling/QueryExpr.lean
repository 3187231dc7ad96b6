import QueryExpr.Case
import QueryExpr.Convert
import QueryExpr.Double
import QueryExpr.Double.Integer
import QueryExpr.Double.Layout
import QueryExpr.Double.Read
import QueryExpr.Double.Shortest
import QueryExpr.Dump
import QueryExpr.Dump.Expr
import QueryExpr.Error
import QueryExpr.Error.Recipe
import QueryExpr.Eval
import QueryExpr.Expr
import QueryExpr.Expr.Demand
import QueryExpr.Expr.Equality
import QueryExpr.Expr.Expect
import QueryExpr.Expr.Recursion
import QueryExpr.Input
import QueryExpr.Json.Codec
import QueryExpr.Json.Token
import QueryExpr.Plan
import QueryExpr.Proofs.Agreement
import QueryExpr.Proofs.Binding
import QueryExpr.Proofs.Branches
import QueryExpr.Proofs.CacheKey
import QueryExpr.Proofs.CasePass
import QueryExpr.Proofs.CaseTypes
import QueryExpr.Proofs.Comparison
import QueryExpr.Proofs.Connectives
import QueryExpr.Proofs.Context
import QueryExpr.Proofs.Conversion
import QueryExpr.Proofs.Denotation
import QueryExpr.Proofs.Determinacy
import QueryExpr.Proofs.Drafts
import QueryExpr.Proofs.Elision
import QueryExpr.Proofs.ErrorKinds
import QueryExpr.Proofs.Failures
import QueryExpr.Proofs.Flattening
import QueryExpr.Proofs.Folding
import QueryExpr.Proofs.HasType
import QueryExpr.Proofs.IntegerText
import QueryExpr.Proofs.Irreducible
import QueryExpr.Proofs.JsonText
import QueryExpr.Proofs.Leaves
import QueryExpr.Proofs.Legible
import QueryExpr.Proofs.Lexemes
import QueryExpr.Proofs.Literals
import QueryExpr.Proofs.Lookups
import QueryExpr.Proofs.NearestInteger
import QueryExpr.Proofs.NormalForm
import QueryExpr.Proofs.Numerals
import QueryExpr.Proofs.Operands
import QueryExpr.Proofs.Outcome
import QueryExpr.Proofs.Overflow
import QueryExpr.Proofs.Placeholders
import QueryExpr.Proofs.Places
import QueryExpr.Proofs.Preparation
import QueryExpr.Proofs.Preservation
import QueryExpr.Proofs.Quotation
import QueryExpr.Proofs.Quotes
import QueryExpr.Proofs.Redaction
import QueryExpr.Proofs.Renaming
import QueryExpr.Proofs.Rendering
import QueryExpr.Proofs.Replacement
import QueryExpr.Proofs.Resolution
import QueryExpr.Proofs.Rewriting
import QueryExpr.Proofs.Rounding
import QueryExpr.Proofs.Selection
import QueryExpr.Proofs.Series
import QueryExpr.Proofs.Shortest
import QueryExpr.Proofs.Shrinking
import QueryExpr.Proofs.Slots
import QueryExpr.Proofs.Soundness
import QueryExpr.Proofs.Splitting
import QueryExpr.Proofs.Subterms
import QueryExpr.Proofs.Unambiguous
import QueryExpr.Proofs.Unification
import QueryExpr.Proofs.Walks
import QueryExpr.Proofs.WellTyped
import QueryExpr.Proofs.Widening
import QueryExpr.Simplify
import QueryExpr.Sql.Dialect
import QueryExpr.Sql.Overflow
import QueryExpr.Sql.Piece
import QueryExpr.Sql.Statement
import QueryExpr.Text.Blank
import QueryExpr.Text.CodePoints
import QueryExpr.Text.Extending
import QueryExpr.Text.Graphic
import QueryExpr.Text.Ignorable
import QueryExpr.Text.Numeral
import QueryExpr.Text.Quoted
import QueryExpr.Ty
import QueryExpr.Typing
import QueryExpr.Value
import QueryExpr.Walk
import QueryExpr.Walk.Log
