import QueryExpr.Double

/-!
# Strings and numbers of a JSON text

Readers for the two JSON tokens that have an inner structure, and a writer for strings. A number
with neither a fraction nor an exponent is an integer as long as 64 bits hold it; any other is a
double, made from its leading digits and one power of ten.
-/

namespace QueryExpr.Json

/-- Characters that may stand between tokens. -/
def isSpace (c : Char) : Bool := c == ' ' || c == '\t' || c == '\n' || c == '\r'

def skipSpace (s : List Char) : List Char := s.dropWhile isSpace

/-! ## Strings -/

def hexDigit? (c : Char) : Option Nat :=
  if c.isDigit then some (c.toNat - 48)
  else if 'a' ≤ c ∧ c ≤ 'f' then some (c.toNat - 87)
  else if 'A' ≤ c ∧ c ≤ 'F' then some (c.toNat - 55)
  else none

def hexUnit? (a b c d : Char) : Option Nat := do
  let a ← hexDigit? a
  let b ← hexDigit? b
  let c ← hexDigit? c
  let d ← hexDigit? d
  return ((a * 16 + b) * 16 + c) * 16 + d

def unescape? : Char → Option Char
  | '\x22' => some '\x22'
  | '\\' => some '\\'
  | '/' => some '/'
  | 'b' => some '\x08'
  | 'f' => some '\x0c'
  | 'n' => some '\n'
  | 'r' => some '\r'
  | 't' => some '\t'
  | _ => none

def prepend (c : Char) : List Char × List Char → List Char × List Char
  | (s, rest) => (c :: s, rest)

/-- The character of a high and a low surrogate. -/
private def surrogates? (high low : Nat) : Option Char :=
  if 0xD800 ≤ high ∧ high < 0xDC00 ∧ 0xDC00 ≤ low ∧ low < 0xE000 then
    some (Char.ofNat (0x10000 + (high - 0xD800) * 0x400 + (low - 0xDC00)))
  else none

/--
The rest of a string after its opening quote, and what follows it. Control characters must be
escaped, and a surrogate needs its partner.
-/
def readStringTail : List Char → Option (List Char × List Char)
  | [] => none
  | '\x22' :: rest => some ([], rest)
  | '\\' :: 'u' :: a :: b :: c :: d :: rest =>
      match hexUnit? a b c d with
      | none => none
      | some unit =>
          if 0xD800 ≤ unit ∧ unit < 0xE000 then
            match rest with
            | '\\' :: 'u' :: e :: f :: g :: h :: rest =>
                match (hexUnit? e f g h).bind (surrogates? unit) with
                | some char => (readStringTail rest).map (prepend char)
                | none => none
            | _ => none
          else (readStringTail rest).map (prepend (Char.ofNat unit))
  | '\\' :: c :: rest =>
      match unescape? c with
      | some char => (readStringTail rest).map (prepend char)
      | none => none
  | c :: rest => if c.toNat < 0x20 then none else (readStringTail rest).map (prepend c)

def escape (c : Char) : List Char :=
  match c with
  | '\x22' => ['\\', '\x22']
  | '\\' => ['\\', '\\']
  | '\x08' => ['\\', 'b']
  | '\x0c' => ['\\', 'f']
  | '\n' => ['\\', 'n']
  | '\r' => ['\\', 'r']
  | '\t' => ['\\', 't']
  | c =>
      if c.toNat < 0x20 then
        '\\' :: 'u' :: '0' :: '0' :: (if c.toNat < 0x10 then ['0'] else []) ++
          Nat.toDigits 16 c.toNat
      else [c]

def writeString (s : String) : String :=
  String.ofList ('\x22' :: s.toList.flatMap escape ++ ['\x22'])

/-! ## Numbers -/

inductive Number where
  | integer (n : Int)
  | double (x : Double)
deriving DecidableEq, Repr

def wordLimit : Nat := UInt64.size

/-- Appends digits for as long as the value fits a word; the rest is left over. -/
def appendDigits (value : Nat) : List Char → Nat × List Char
  | [] => (value, [])
  | c :: cs =>
      let next := value * 10 + (c.toNat - 48)
      if next < wordLimit then appendDigits next cs else (value, c :: cs)

/-- The product of a double and the quotient `num / den`, rounded once. -/
private def scale? (x : Double) (num den : Nat) : Option Double :=
  x.ratio?.map fun r => Double.ofRatio x.isNegative (r.1 * num) (r.2 * den)

/-- The double nearest to a power of ten, as a quotient. -/
private def powerOfTen? (exponent : Nat) : Option (Nat × Nat) :=
  (Double.ofRatio false (Double.power 10 exponent) 1).ratio?

/--
A word scaled by a power of ten: first the word is rounded, then the product. Powers beyond the
range of doubles are applied in steps. A value that overflows is refused, one that vanishes is zero.
-/
private def scaled? (steps : Nat) (x : Double) (exponent : Int) : Option Double :=
  if exponent.natAbs ≤ 308 then
    match powerOfTen? exponent.natAbs with
    | none => none
    | some (num, den) =>
        (if 0 ≤ exponent then scale? x num den else scale? x den num).filter Double.isFinite
  else if x = Double.zero then some x
  else if 0 ≤ exponent then none
  else
    match steps, powerOfTen? 308 with
    | steps + 1, some (num, den) =>
        match scale? x den num with
        | some x => scaled? steps x (exponent + 308)
        | none => none
    | _, _ => some Double.zero

private def withSign (negative : Bool) (x : Double) : Double :=
  Double.ofMagnitude negative x.magnitude

/-- The exponent part of a number, if there is one: a mark, an optional sign and digits. -/
def readExponent? : List Char → Option (Option Int × List Char)
  | [] => some (none, [])
  | mark :: s =>
      if mark = 'e' ∨ mark = 'E' then
        let (negative, s) :=
          match s with
          | '-' :: s => (true, s)
          | '+' :: s => (false, s)
          | s => (false, s)
        let digits := s.takeWhile Char.isDigit
        if digits.isEmpty then none
        else
          let value : Nat := digits.foldl (fun n c => n * 10 + (c.toNat - 48)) 0
          some (some (if negative then -(value : Int) else value), s.dropWhile Char.isDigit)
      else some (none, mark :: s)

/-- The fraction part of a number, if there is one: a point and at least one digit. -/
def readFraction? : List Char → Option (Option (List Char) × List Char)
  | '.' :: s =>
      let digits := s.takeWhile Char.isDigit
      if digits.isEmpty then none else some (some digits, s.dropWhile Char.isDigit)
  | s => some (none, s)

/-- Exponents past this bound overflow or vanish whatever the digits are. -/
private def exponentLimit : Nat := Int32.maxValue.toInt.toNat

def wholeNumber (negative : Bool) (value : Nat) : Number :=
  if negative ∧ (value = 0 ∨ Int64.minValue.toInt.natAbs < value) then
    .double (withSign true (Double.ofInt value))
  else .integer (if negative then -(value : Int) else value)

def readUnsigned? (negative : Bool) (s : List Char) : Option (Number × List Char) := do
  let whole := s.takeWhile Char.isDigit
  if whole.isEmpty ∨ (whole.head? = some '0' ∧ 1 < whole.length) then none
  let (fraction, s) ← readFraction? (s.dropWhile Char.isDigit)
  let (exponent, s) ← readExponent? s
  let (value, surplus) := appendDigits 0 whole
  if fraction.isNone ∧ exponent.isNone ∧ surplus.isEmpty then
    return (wholeNumber negative value, s)
  let digits := fraction.getD []
  let (significand, unread) := appendDigits value digits
  let shift : Int := (surplus.length : Int) - (digits.length - unread.length : Nat)
  let power := exponent.getD 0
  if power.natAbs ≤ exponentLimit then
    let x ← scaled? 4 (Double.ofInt significand) (shift + power)
    return (.double (withSign negative x), s)
  else if significand ≠ 0 ∧ 0 < power then none
  else return (.double (withSign negative Double.zero), s)

def readNumber? : List Char → Option (Number × List Char)
  | '-' :: s => readUnsigned? true s
  | s => readUnsigned? false s

end QueryExpr.Json
