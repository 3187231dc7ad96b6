import QueryExpr.Double.Layout
import QueryExpr.Text.Numeral
import QueryExpr.Text.Quoted
import QueryExpr.Value

/-!
# Dialects of SQL

What differs between databases: how names are quoted, how types are called, how placeholders are
written. The canonical dialect is for display and for comparing statements: it leaves names bare and
writes constants into the text, where the others bind them.
-/

namespace QueryExpr

inductive Dialect where
  | canonical
  | postgresql
  | sqlite
  | mysql
deriving DecidableEq, Repr, Inhabited

namespace Dialect

def name : Dialect → String
  | canonical => "canonical"
  | postgresql => "postgresql"
  | sqlite => "sqlite"
  | mysql => "mysql"

def ofName? (s : String) : Option Dialect :=
  [canonical, postgresql, sqlite, mysql].find? (·.name == s)

/-- The character names are quoted with. -/
def nameQuote? : Dialect → Option Char
  | canonical => none
  | mysql => some '\x60'
  | postgresql | sqlite => some '\x22'

def writeName (dialect : Dialect) (s : String) : String :=
  match dialect.nameQuote? with
  | none => s
  | some quote => String.ofList (Text.quoted quote s.toList)

/-- Placeholders are numbered from one, save where they are taken in textual order. -/
def placeholder (dialect : Dialect) (number : Nat) : String :=
  match dialect with
  | mysql => "?"
  | postgresql => "$" ++ toString number
  | canonical | sqlite => "?" ++ toString number

/-- The name of a cast's target. -/
def typeName : Dialect → Ty → String
  | mysql, .bool | mysql, .i32 | mysql, .i64 => "SIGNED"
  | mysql, .f64 => "DOUBLE"
  | mysql, .string => "CHAR"
  | canonical, .string => "VARCHAR"
  | _, .bool => "BOOLEAN"
  | _, .i32 => "INTEGER"
  | _, .i64 => "BIGINT"
  | _, .f64 => "DOUBLE PRECISION"
  | _, .string => "TEXT"
  | _, .null | _, .unknown => "NULL"

end Dialect

namespace Value

/-- A double that has no numeral is a cast from text. -/
def specialLiteral (text : String) : String :=
  "CAST('" ++ text ++ "' AS " ++ Dialect.canonical.typeName .f64 ++ ")"

/-- A constant written into the statement. -/
def literal : Value → String
  | null => "NULL"
  | bool b => if b then "TRUE" else "FALSE"
  | i32 n => Text.writeInteger n.toInt
  | i64 n => Text.writeInteger n.toInt
  | string s => String.ofList (Text.quoted '\x27' s.toList)
  | f64 x =>
      match x.reading with
      | .nan => specialLiteral "NaN"
      | .infinite negative => specialLiteral (if negative then "-Infinity" else "Infinity")
      | .finite _ _ _ => Layout.literal.write x

end Value

end QueryExpr
