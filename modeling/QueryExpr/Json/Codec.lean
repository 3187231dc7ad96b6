import QueryExpr.Double.Layout
import QueryExpr.Json.Token
import QueryExpr.Text.Numeral
import QueryExpr.Value

/-!
# Values and types as JSON

A value is an object whose only key names its kind; what has no content may also stand as the bare
name. Nothing is coerced: an integer has to be written as one and has to fit, and only a double is
read from either form of number.
-/

namespace QueryExpr.Json

/-- A reader takes characters off the front of a text. -/
abbrev Reader (α : Type) := List Char → Option (α × List Char)

def readString : Reader String := fun s =>
  match skipSpace s with
  | '\x22' :: s => (readStringTail s).map fun r => (String.ofList r.1, r.2)
  | _ => none

/-- Reads one given character. -/
def expect (c : Char) (s : List Char) : Option (List Char) :=
  match skipSpace s with
  | d :: s => if d = c then some s else none
  | [] => none

/-- Reads one given word. -/
def expectWord (word : String) (s : List Char) : Option (List Char) :=
  let s := skipSpace s
  if word.toList.isPrefixOf s then some (s.drop word.length) else none

/-- An object with a single key, or the key alone for what has no content. -/
def readTagged {α : Type} (content : String → Reader α) (bare : String → Option α) : Reader α :=
  fun s =>
    match skipSpace s with
    | '\x7b' :: s => do
        let (tag, s) ← readString s
        let s ← expect ':' s
        let (a, s) ← content tag s
        let s ← expect '\x7d' s
        return (a, s)
    | '\x22' :: _ => do
        let (tag, s) ← readString s
        let a ← bare tag
        return (a, s)
    | _ => none

def readInteger (lo hi : Int) : Reader Int := fun s =>
  match readNumber? (skipSpace s) with
  | some (.integer n, s) => if lo ≤ n ∧ n ≤ hi then some (n, s) else none
  | _ => none

private def readDouble : Reader Double := fun s =>
  match readNumber? (skipSpace s) with
  | some (.integer n, s) => some (Double.ofInt n, s)
  | some (.double x, s) => some (x, s)
  | none => none

def readBool : Reader Bool := fun s =>
  match expectWord "true" s with
  | some s => some (true, s)
  | none => (expectWord "false" s).map (false, ·)

def content (tag : String) : Reader Value := fun s =>
  match tag with
  | "Null" => (expectWord "null" s).map (.null, ·)
  | "Bool" => (readBool s).map (Prod.map .bool id)
  | "I32" =>
      (readInteger Int32.minValue.toInt Int32.maxValue.toInt s).map
        (Prod.map (.i32 ∘ Int32.ofInt) id)
  | "I64" =>
      (readInteger Int64.minValue.toInt Int64.maxValue.toInt s).map
        (Prod.map (.i64 ∘ Int64.ofInt) id)
  | "F64" => (readDouble s).map (Prod.map .f64 id)
  | "String" => (readString s).map (Prod.map .string id)
  | _ => none

def readValue : Reader Value :=
  readTagged content fun tag => if tag = "Null" then some .null else none

def readTy : Reader Ty :=
  readTagged
    (fun tag s => do
      let s ← expectWord "null" s
      let ty ← Ty.ofName? tag
      return (ty, s))
    Ty.ofName?

/-- The items of a list after the first one; every item takes at least one character. -/
def readItems {α : Type} (item : Reader α) : Nat → Reader (List α)
  | 0, _ => none
  | bound + 1, s =>
      match skipSpace s with
      | ']' :: s => some ([], s)
      | ',' :: s => do
          let (a, s) ← item s
          let (as, s) ← readItems item bound s
          return (a :: as, s)
      | _ => none

def readList {α : Type} (item : Reader α) : Reader (List α) := fun s => do
  let s ← expect '[' s
  match skipSpace s with
  | ']' :: s => return ([], s)
  | s =>
      let (a, s) ← item s
      let (as, s) ← readItems item (s.length + 1) s
      return (a :: as, s)

/-- Reads a whole text: only blanks may follow. -/
def readAll? {α : Type} (reader : Reader α) (text : String) : Option α :=
  match reader text.toList with
  | some (a, rest) => if (skipSpace rest).isEmpty then some a else none
  | none => none

def tagged (tag : String) (text : String) : String :=
  "\x7b" ++ writeString tag ++ ":" ++ text ++ "\x7d"

/-- A double, or null for what no number of a JSON text denotes. -/
def writeDouble (x : Double) : String := if x.isFinite then Layout.json.write x else "null"

def writeValue : Value → String
  | .null => writeString "Null"
  | .bool b => tagged "Bool" (if b then "true" else "false")
  | .i32 n => tagged "I32" (Text.writeInteger n.toInt)
  | .i64 n => tagged "I64" (Text.writeInteger n.toInt)
  | .f64 x => tagged "F64" (writeDouble x)
  | .string s => tagged "String" (writeString s)

def writeTy (t : Ty) : String := writeString t.name

def writeList {α : Type} (item : α → String) (items : List α) : String :=
  "[" ++ ",".intercalate (items.map item) ++ "]"

end QueryExpr.Json
