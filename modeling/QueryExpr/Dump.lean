import QueryExpr.Text.Extending
import QueryExpr.Text.Graphic
import QueryExpr.Text.Ignorable

/-!
# Dumps

A dump shows the structure of a value: named tuples and records, lists, and atoms that are text
already. It is written on one line, or indented with every part on a line of its own.
-/

namespace QueryExpr

inductive Dump where
  | atom (text : String)
  | tuple (name : String) (items : List Dump)
  | record (name : String) (fields : List (String × Dump))
  | list (items : List Dump)

namespace Dump

def option : Option Dump → Dump
  | none => atom "None"
  | some d => tuple "Some" [d]

private def hexDigits (n : Nat) : String := String.ofList (Nat.toDigits 16 n)

/-- A graphic character can be seen on its own unless it is attached to another or shows nothing. -/
def isVisible (c : Char) : Bool :=
  Text.isGraphic c && !Text.isAttached c && !Text.isIgnorable c

/-- Escapes quotes and backslashes, and every character that cannot be seen on its own. -/
private def escape (c : Char) : String :=
  match c with
  | '\x22' => "\\\""
  | '\\' => "\\\\"
  | '\n' => "\\n"
  | '\t' => "\\t"
  | '\r' => "\\r"
  | '\x00' => "\\0"
  | c =>
      if isVisible c then String.ofList [c]
      else "\\u\x7b" ++ hexDigits c.toNat ++ "\x7d"

/-- A text between quotes. -/
def quoted (s : String) : Dump :=
  atom ("\"" ++ String.join (s.toList.map escape) ++ "\"")

mutual

def oneLine : Dump → String
  | atom text => text
  | tuple name items => name ++ "(" ++ ", ".intercalate (oneLineItems items) ++ ")"
  | record name fields => name ++ " \x7b " ++ ", ".intercalate (oneLineFields fields) ++ " \x7d"
  | list items => "[" ++ ", ".intercalate (oneLineItems items) ++ "]"

def oneLineItems : List Dump → List String
  | [] => []
  | d :: ds => oneLine d :: oneLineItems ds

def oneLineFields : List (String × Dump) → List String
  | [] => []
  | (name, d) :: fields => (name ++ ": " ++ oneLine d) :: oneLineFields fields

end

/-- Four spaces for every level. -/
private def margin (level : Nat) : String := String.ofList (List.replicate (4 * level) ' ')

mutual

/-- The text of a dump that starts within a line at the given level. -/
def indented (level : Nat) : Dump → String
  | atom text => text
  | tuple name items => name ++ "(\n" ++ indentedItems level items ++ margin level ++ ")"
  | record name fields =>
      name ++ " \x7b\n" ++ indentedFields level fields ++ margin level ++ "\x7d"
  | list [] => "[]"
  | list (d :: ds) => "[\n" ++ indentedItems level (d :: ds) ++ margin level ++ "]"

def indentedItems (level : Nat) : List Dump → String
  | [] => ""
  | d :: ds => margin (level + 1) ++ indented (level + 1) d ++ ",\n" ++ indentedItems level ds

def indentedFields (level : Nat) : List (String × Dump) → String
  | [] => ""
  | (name, d) :: fields =>
      margin (level + 1) ++ name ++ ": " ++ indented (level + 1) d ++ ",\n" ++
        indentedFields level fields

end

end Dump

end QueryExpr
