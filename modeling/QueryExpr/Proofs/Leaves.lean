import QueryExpr.Expr.Recursion
import QueryExpr.Proofs.Literals
import QueryExpr.Proofs.Numerals
import QueryExpr.Proofs.Rendering

/-!
# Leaves

A constant, a column or an argument is one word or one quoted text. The first character and the
marks of a number tell which kind of leaf a word is, and the word tells the leaf: up to the width of
an integer, the type of a column and the payload of a NaN, which are not written.
-/

namespace QueryExpr

open Lexeme (IsWord isWordChar)

/-- Forgets what the canonical text does not show of a constant. -/
def Value.blur : Value → Value
  | i32 n => i64 n.toInt64
  | f64 x =>
      match x.reading with
      | .nan => f64 .nan
      | _ => f64 x
  | v => v

namespace Expr

/-- Forgets what the canonical text does not show of a node. -/
def blur : Expr → Expr
  | val v => val v.blur
  | col name _ => col name .unknown
  | case whens otherwise _ => case whens otherwise none
  | e => e

/-- The expression without integer widths, column types, CASE types and payloads of NaN. -/
def skeleton (e : Expr) : Expr := e.rebuild blur

theorem skeleton_eq (e : Expr) : e.skeleton = (e.mapChildren skeleton).blur := rebuild_eq blur e

/-- Nodes that show the same over the skeletons of their parts have one skeleton. -/
theorem skeleton_congr {e e' : Expr}
    (h : (e.mapChildren skeleton).blur = (e'.mapChildren skeleton).blur) :
    e.skeleton = e'.skeleton := by
  rw [skeleton_eq, skeleton_eq e', h]

end Expr

section Names

def isNameStart (c : Char) : Bool := c.isAlpha || c == '_' || decide (128 ≤ c.toNat)

def isNameChar (c : Char) : Bool := isNameStart c || c.isDigit

/-- The words that a statement consists of; they are always written in upper case. -/
def keywords : List String :=
  ["AND", "OR", "NOT", "IS", "NULL", "TRUE", "FALSE", "CASE", "WHEN", "THEN", "ELSE", "END", "CAST",
    "AS"]

/-- A letter or an underscore, then letters, digits and underscores; no keyword. -/
def isPlainName (name : String) : Bool :=
  (match name.toList with
    | [] => false
    | c :: cs => isNameStart c && cs.all isNameChar) && !keywords.contains name

theorem exists_of_isPlainName {name : String} (h : isPlainName name = true) :
    ∃ c cs, name.toList = c :: cs ∧ isNameStart c = true ∧ (∀ d ∈ cs, isNameChar d = true) ∧
      name ∉ keywords := by
  unfold isPlainName at h
  split at h
  · simp at h
  · rename_i c cs hname
    simp only [Bool.and_eq_true, Bool.not_eq_true', List.all_eq_true, ← Bool.not_eq_true,
      List.contains_iff_mem] at h
    exact ⟨c, cs, hname, h.1.1, h.1.2, h.2⟩

end Names

inductive WordKind where
  | placeholder
  | integer
  | fractional
  | name
deriving DecidableEq

def WordKind.ofChars : List Char → WordKind
  | [] => name
  | c :: cs =>
      if c = '?' then placeholder
      else if c.isDigit || c == '-' then
        if (c :: cs).any fun d => d == '.' || d == 'e' then fractional else integer
      else name

namespace Expr

def wordKind : Expr → WordKind
  | arg _ => .placeholder
  | val (.i32 _) | val (.i64 _) => .integer
  | val (.f64 _) => .fractional
  | _ => .name

/-- The expression is a leaf of one lexeme. -/
inductive Leaf : Expr → Lexeme → Prop
  | null : Leaf (val .null) (.word "NULL".toList)
  | bool (b : Bool) : Leaf (val (.bool b)) (.word (if b then "TRUE" else "FALSE").toList)
  | i32 (n : Int32) : Leaf (val (.i32 n)) (.word (Text.writeInteger n.toInt).toList)
  | i64 (n : Int64) : Leaf (val (.i64 n)) (.word (Text.writeInteger n.toInt).toList)
  | f64 {x : Double} {negative : Bool} {m : Nat} {q : Int}
      (h : x.reading = .finite negative m q) :
      Leaf (val (.f64 x)) (.word (Layout.literal.write x).toList)
  | string (s : String) : Leaf (val (.string s)) (.quoted s.toList)
  | arg (position : Nat) :
      Leaf (arg position) (.word (Dialect.canonical.placeholder (position + 1)).toList)
  | col {name : String} (ty : Ty) (h : isPlainName name = true) :
      Leaf (col name ty) (.word name.toList)

end Expr

namespace Text

theorem toList_placeholder (n : Nat) :
    (Dialect.canonical.placeholder n).toList = '?' :: Nat.toDigits 10 n := by
  change ("?" ++ toString n).toList = _
  rw [String.toList_append, Nat.toString_eq_ofList_toDigits]
  simp

end Text

namespace Lexeme

theorem isWord_of_not_mem {s : List Char} (h : ∀ c ∈ s, isWordChar c = true)
    (hs : s ∉ [[], "NOT".toList, "CASE".toList, "CAST".toList]) : IsWord s := by
  have hall : ∀ m ∈ Mark.all,
      m.chars.takeWhile isWordChar ∈ [[], "NOT".toList, "CASE".toList, "CAST".toList] := by
    decide +kernel
  exact ⟨h, fun m hm heq => hs (heq ▸ hall m hm)⟩

theorem isWord_of_head {c : Char} {cs : List Char} (hN : c ≠ 'N') (hC : c ≠ 'C')
    (h : ∀ d ∈ c :: cs, isWordChar d = true) : IsWord (c :: cs) :=
  isWord_of_not_mem h (by simp [hN, hC])

private theorem isWordChar_of_isDigit {c : Char} (h : c.isDigit = true) : isWordChar c = true := by
  have hne : c ≠ ' ' ∧ c ≠ '(' ∧ c ≠ ')' ∧ c ≠ '\x27' := by
    refine ⟨?_, ?_, ?_, ?_⟩ <;> rintro rfl <;> simp at h
  simp [isWordChar, hne]

private theorem isWord_number {text : List Char}
    (hfirst : ∃ c ∈ text.head?, c.isDigit = true ∨ c = '-')
    (h : ∀ c ∈ text, c.isDigit = true ∨ c = '-' ∨ c = '.' ∨ c = 'e') : IsWord text := by
  obtain ⟨c, hc, hdigit⟩ := hfirst
  cases text with
  | nil => cases hc
  | cons d cs =>
      obtain rfl : d = c := by simpa using hc
      refine isWord_of_head ?_ ?_ fun e he => ?_
      · rintro rfl
        simp at hdigit
      · rintro rfl
        simp at hdigit
      · rcases h e he with h | rfl | rfl | rfl
        · exact isWordChar_of_isDigit h
        · rfl
        · rfl
        · rfl

private theorem not_isNameStart {c : Char} (h : c.isDigit = true ∨ c = '-' ∨ c = '?') :
    isNameStart c = false := by
  rcases h with h | rfl | rfl
  · have hdigit : 48 ≤ c.toNat ∧ c.toNat ≤ 57 := Char.isDigit_iff_toNat.mp h
    have halpha : c.isAlpha = false := by
      refine Bool.eq_false_iff.mpr fun halpha => ?_
      change (decide (c.val ≥ 65 ∧ c.val ≤ 90) ||
        (decide (c.val ≥ 97) && decide (c.val ≤ 122))) = true at halpha
      simp only [Bool.or_eq_true, Bool.and_eq_true, decide_eq_true_eq, ge_iff_le,
        UInt32.le_iff_toNat_le] at halpha
      change 65 ≤ c.toNat ∧ c.toNat ≤ 90 ∨ 97 ≤ c.toNat ∧ c.toNat ≤ 122 at halpha
      omega
    have hne : c ≠ '_' := by
      rintro rfl
      simp at h
    have hascii : ¬ 128 ≤ c.toNat := by omega
    simp [isNameStart, halpha, hne, hascii]
  · decide
  · decide

private theorem isWordChar_of_isNameChar {c : Char} (h : isNameChar c = true) :
    isWordChar c = true := by
  have hne : c ≠ ' ' ∧ c ≠ '(' ∧ c ≠ ')' ∧ c ≠ '\x27' := by
    refine ⟨?_, ?_, ?_, ?_⟩ <;> rintro rfl <;> revert h <;> decide
  simp [isWordChar, hne]

private theorem isWord_name {name : String} (h : isPlainName name = true) :
    IsWord name.toList := by
  obtain ⟨c, cs, hname, hstart, hrest, hkeyword⟩ := exists_of_isPlainName h
  refine isWord_of_not_mem ?_ ?_
  · rw [hname]
    refine List.forall_mem_cons.mpr ⟨isWordChar_of_isNameChar ?_, fun d hd =>
      isWordChar_of_isNameChar (hrest d hd)⟩
    rw [isNameChar, hstart, Bool.true_or]
  · intro hmem
    simp only [List.mem_cons, List.not_mem_nil, or_false] at hmem
    rcases hmem with hmem | hmem | hmem | hmem
    · simp [hmem] at hname
    all_goals
      rw [String.toList_inj.mp hmem] at hkeyword
      exact hkeyword (by decide)

end Lexeme

namespace Expr

open Lexeme (isWord_of_head)

private theorem first_writeInteger (i : Int) :
    ∃ c ∈ (Text.writeInteger i).toList.head?, c.isDigit = true ∨ c = '-' := by
  rw [Text.toList_writeInteger]
  split
  · exact ⟨'-', rfl, Or.inr rfl⟩
  · obtain ⟨c, cs, hcs⟩ := List.exists_cons_of_ne_nil (@Nat.toDigits_ne_nil i.natAbs 10)
    refine ⟨c, by simp [hcs], Or.inl (Text.isDigit_of_mem_decimal (n := i.natAbs) ?_)⟩
    rw [hcs]
    exact List.mem_cons_self

private theorem mem_writeInteger {i : Int} {c : Char} (h : c ∈ (Text.writeInteger i).toList) :
    c.isDigit = true ∨ c = '-' := by
  rw [Text.toList_writeInteger] at h
  rcases List.mem_append.mp h with h | h
  · split at h
    · exact Or.inr (List.mem_singleton.mp h)
    · cases h
  · exact Or.inl (Text.isDigit_of_mem_decimal h)

theorem Leaf.isWord {e : Expr} {w : List Char} (h : Leaf e (.word w)) : IsWord w := by
  have hinteger : ∀ i, IsWord (Text.writeInteger i).toList := fun i =>
    Lexeme.isWord_number (first_writeInteger i) fun c hc =>
      (mem_writeInteger hc).imp id Or.inl
  cases h with
  | null => exact Lexeme.isWord_of_not_mem (List.all_eq_true.mp (by decide)) (by decide)
  | bool b =>
      cases b <;>
        exact Lexeme.isWord_of_not_mem (List.all_eq_true.mp (by decide)) (by decide)
  | i32 n | i64 n => exact hinteger _
  | f64 h =>
      have hfractional := Layout.isFractional_write h
      exact Lexeme.isWord_number hfractional.first hfractional.chars
  | arg position =>
      rw [Text.toList_placeholder]
      refine isWord_of_head (by decide) (by decide) (List.forall_mem_cons.mpr ⟨rfl, ?_⟩)
      exact fun c hc => Lexeme.isWordChar_of_isDigit (Text.isDigit_of_mem_decimal hc)
  | col ty h => exact Lexeme.isWord_name h

private theorem ofChars_number {text : List Char}
    (hfirst : ∃ c ∈ text.head?, c.isDigit = true ∨ c = '-') :
    WordKind.ofChars text =
      if text.any fun d => d == '.' || d == 'e' then .fractional else .integer := by
  obtain ⟨c, hc, hdigit⟩ := hfirst
  cases text with
  | nil => cases hc
  | cons d cs =>
      obtain rfl : d = c := by simpa using hc
      have hmark : d ≠ '?' := by
        rintro rfl
        simp at hdigit
      rw [WordKind.ofChars, if_neg hmark, if_pos (by simpa using hdigit)]

private theorem ofChars_writeInteger (i : Int) :
    WordKind.ofChars (Text.writeInteger i).toList = .integer := by
  rw [ofChars_number (first_writeInteger i), if_neg]
  intro h
  obtain ⟨c, hc, hmark⟩ := List.any_eq_true.mp h
  rcases mem_writeInteger hc with hdigit | rfl
  · rcases (by simpa using hmark : c = '.' ∨ c = 'e') with rfl | rfl <;> simp at hdigit
  · simp at hmark

theorem Leaf.ofChars {e : Expr} {w : List Char} (h : Leaf e (.word w)) :
    WordKind.ofChars w = e.wordKind := by
  cases h with
  | null => decide
  | bool b => cases b <;> decide
  | i32 n | i64 n => exact ofChars_writeInteger _
  | f64 h =>
      have hfractional := Layout.isFractional_write h
      rw [ofChars_number hfractional.first, if_pos]
      · rfl
      · obtain ⟨c, hc, hmark⟩ := hfractional.marked
        exact List.any_eq_true.mpr ⟨c, hc, by simpa using hmark⟩
  | arg position =>
      rw [Text.toList_placeholder]
      rfl
  | col ty h =>
      obtain ⟨c, cs, hname, hstart, -, -⟩ := exists_of_isPlainName h
      have hfirst : ¬ (c.isDigit = true ∨ c = '-' ∨ c = '?') := fun hc => by
        rw [Lexeme.not_isNameStart hc] at hstart
        cases hstart
      rw [not_or, not_or] at hfirst
      obtain ⟨hdigit, hminus, hquestion⟩ := hfirst
      rw [hname, WordKind.ofChars, if_neg hquestion, if_neg (by simp [hdigit, hminus])]
      rfl

theorem Leaf.lexemes {e : Expr} {a : Lexeme} (h : Leaf e a) : e.lexemes = [a] := by
  cases h with
  | f64 h =>
      simp only [Expr.lexemes, Value.lexemes, Value.specialText?, h]
  | _ => rfl

private theorem keyword_ne_name {keyword name : String} (hkeyword : keyword ∈ keywords)
    (h : isPlainName name = true) : keyword.toList ≠ name.toList := by
  obtain ⟨-, -, -, -, -, hname⟩ := exists_of_isPlainName h
  exact fun heq => hname (String.toList_inj.mp heq ▸ hkeyword)

private theorem truth_mem_keywords (b : Bool) : (if b then "TRUE" else "FALSE") ∈ keywords := by
  cases b <;> decide

private theorem Leaf.unique_name {e e' : Expr} {w : List Char} (h : Leaf e (.word w))
    (h' : Leaf e' (.word w)) (hkind : e.wordKind = .name) (hkind' : e'.wordKind = .name) :
    e.skeleton = e'.skeleton := by
  generalize hw : w = w' at h'
  cases h with
  | null =>
      cases h' with
      | null => rfl
      | bool b => cases b <;> exact absurd hw (by decide)
      | col ty hname => exact absurd hw (keyword_ne_name (by decide) hname)
      | _ => cases hkind'
  | bool b =>
      cases h' with
      | null => cases b <;> exact absurd hw (by decide)
      | bool b' => cases b <;> cases b' <;> first | rfl | exact absurd hw (by decide)
      | col ty hname => exact absurd hw (keyword_ne_name (truth_mem_keywords b) hname)
      | _ => cases hkind'
  | col ty hname =>
      cases h' with
      | null => exact absurd hw.symm (keyword_ne_name (by decide) hname)
      | bool b => exact absurd hw.symm (keyword_ne_name (truth_mem_keywords b) hname)
      | col ty' hname' =>
          rw [String.toList_inj] at hw
          subst hw
          rfl
      | _ => cases hkind'
  | _ => cases hkind

private theorem Leaf.integer {e : Expr} {w : List Char} (h : Leaf e (.word w))
    (hkind : e.wordKind = .integer) :
    ∃ n : Int64, e.skeleton = val (.i64 n) ∧ w = (Text.writeInteger n.toInt).toList := by
  cases h with
  | i32 n => exact ⟨n.toInt64, rfl, by rw [Int32.toInt_toInt64]⟩
  | i64 n => exact ⟨n, rfl, rfl⟩
  | bool | null | f64 | arg | col => cases hkind

/-- One lexeme belongs to one leaf only, up to what is not written. -/
theorem Leaf.unique {e e' : Expr} {a : Lexeme} (h : Leaf e a) (h' : Leaf e' a) :
    e.skeleton = e'.skeleton := by
  cases a with
  | mark m => cases h
  | quoted s =>
      generalize hs : s = t at h'
      cases h
      cases h' with
      | string t => rw [String.toList_inj.mp hs]
  | word w =>
      have hkind : e.wordKind = e'.wordKind := h.ofChars.symm.trans h'.ofChars
      match hk : e.wordKind with
      | .name => exact h.unique_name h' hk (hkind.symm.trans hk)
      | .integer =>
          obtain ⟨n, hn, hw⟩ := h.integer hk
          obtain ⟨k, hk, hw'⟩ := h'.integer (hkind.symm.trans hk)
          have hnk := Text.writeInteger_injective (String.toList_inj.mp (hw.symm.trans hw'))
          rw [hn, hk, Int64.toInt_inj.mp hnk]
      | .fractional =>
          rw [hk] at hkind
          generalize hw : w = w' at h'
          cases h with
          | f64 hx =>
              cases h' with
              | f64 hy => rw [Layout.write_injective hx hy (String.toList_inj.mp hw)]
              | _ => cases hkind
          | _ => cases hk
      | .placeholder =>
          rw [hk] at hkind
          generalize hw : w = w' at h'
          cases h with
          | arg position =>
              cases h' with
              | arg position' =>
                  rw [Text.toList_placeholder, Text.toList_placeholder, List.cons.injEq] at hw
                  have := Text.decimal_injective hw.2
                  rw [show position = position' by omega]
              | _ => cases hkind
          | _ => cases hk

end Expr

end QueryExpr
