import QueryExpr.Proofs.Quotes
import QueryExpr.Sql.Piece

/-!
# Lexemes

The canonical text of an expression is spelled out of words, quoted texts and marks. A mark is
everything that surrounds the parts of a node, its spaces included. No mark begins another one, and
where what ends a word or a quotation follows it, the text can be taken apart in one way only.
-/

namespace QueryExpr

inductive Mark where
  | opening
  | closing
  | conjunction
  | disjunction
  | comparison (op : Comparison)
  | test (negated : Bool)
  | negation
  | caseStart
  | branch
  | result
  | otherwise
  | caseEnd
  | castStart
  | castEnd (ty : Ty)
deriving DecidableEq

namespace Mark

def text : Mark → String
  | opening => "("
  | closing => ")"
  | conjunction => " AND "
  | disjunction => " OR "
  | comparison op => " " ++ op.symbol ++ " "
  | test negated => if negated then " IS NOT NULL" else " IS NULL"
  | negation => "NOT "
  | caseStart => "CASE"
  | branch => " WHEN "
  | result => " THEN "
  | otherwise => " ELSE "
  | caseEnd => " END"
  | castStart => "CAST("
  | castEnd ty => " AS " ++ Dialect.canonical.typeName ty ++ ")"

/-- The text of a mark where the types of casts are called as in the dialect. -/
def textIn (dialect : Dialect) : Mark → String
  | castEnd ty => " AS " ++ dialect.typeName ty ++ ")"
  | m => m.text

theorem textIn_canonical (m : Mark) : m.textIn .canonical = m.text := by cases m <;> rfl

/-- The mark belongs to a cast. -/
def isCast : Mark → Bool
  | castStart | castEnd _ => true
  | _ => false

/-- The marks of a statement: a cast names a type that says something. -/
def all : List Mark :=
  [opening, closing, conjunction, disjunction, test false, test true, negation, caseStart, branch,
    result, otherwise, caseEnd, castStart] ++ Comparison.all.map comparison ++
    (Ty.all.filter (!·.isIndeterminate)).map castEnd

def chars (m : Mark) : List Char := m.text.toList

theorem eq_of_prefix {m n : Mark} (hm : m ∈ all) (hn : n ∈ all) (h : m.chars <+: n.chars) :
    m = n := by
  have hall : ∀ m ∈ all, ∀ n ∈ all, m.chars <+: n.chars → m = n := by decide +kernel
  exact hall m hm n hn h

end Mark

inductive Lexeme where
  | word (s : List Char)
  | quoted (s : List Char)
  | mark (m : Mark)
deriving DecidableEq

namespace Lexeme

def chars : Lexeme → List Char
  | word s => s
  | quoted s => Text.quoted '\x27' s
  | mark m => m.chars

def spell (l : List Lexeme) : List Char := l.flatMap chars

def isWordChar (c : Char) : Bool := c != ' ' && c != '(' && c != ')' && c != '\x27'

/-- The characters that end a word or a quotation. -/
def Stops (rest : List Char) : Prop := ∀ c ∈ rest.head?, c = ' ' ∨ c = ')'

/-- A word is nothing that a mark begins with. -/
def IsWord (s : List Char) : Prop :=
  (∀ c ∈ s, isWordChar c = true) ∧ ∀ m ∈ Mark.all, m.chars.takeWhile isWordChar ≠ s

/-- The lexeme ends where the rest begins. -/
def Delimited : Lexeme → List Char → Prop
  | word s, rest => IsWord s ∧ Stops rest
  | quoted _, rest => Stops rest
  | mark m, rest => m ∈ Mark.all ∧ (m = .caseStart → Stops rest)

/-- Every lexeme ends where the next one begins. -/
def AllDelimited : List Lexeme → Prop
  | [] => True
  | a :: l => a.Delimited (spell l) ∧ AllDelimited l

private theorem takeWhile_of_stops {rest : List Char} (h : Stops rest) :
    rest.takeWhile isWordChar = [] := by
  cases rest with
  | nil => rfl
  | cons c rest =>
      rcases h c rfl with rfl | rfl <;> rfl

private theorem takeWhile_word {s rest : List Char} (hs : ∀ c ∈ s, isWordChar c = true)
    (hrest : Stops rest) : (s ++ rest).takeWhile isWordChar = s := by
  rw [List.takeWhile_append_of_pos hs, takeWhile_of_stops hrest, List.append_nil]

private theorem takeWhile_mark {m : Mark} {rest : List Char} (h : (mark m).Delimited rest) :
    (m.chars ++ rest).takeWhile isWordChar = m.chars.takeWhile isWordChar := by
  have hall : ∀ m ∈ Mark.all, m = .caseStart ∨
      (m.chars.takeWhile isWordChar).length ≠ m.chars.length := by decide +kernel
  rcases hall m h.1 with rfl | hshort
  · have hword : ∀ c ∈ Mark.caseStart.chars, isWordChar c = true :=
      List.all_eq_true.mp (by decide +kernel)
    rw [List.takeWhile_append_of_pos hword, takeWhile_of_stops (h.2 rfl)]
    decide +kernel
  · rw [List.takeWhile_append, if_neg hshort]

private theorem word_ne_mark {s rest rest' : List Char} {m : Mark}
    (hs : (word s).Delimited rest) (hm : (mark m).Delimited rest') :
    s ++ rest ≠ m.chars ++ rest' := by
  intro h
  have htake := congrArg (List.takeWhile isWordChar) h
  rw [takeWhile_word hs.1.1 hs.2, takeWhile_mark hm] at htake
  exact hs.1.2 m hm.1 htake.symm

private theorem word_ne_quoted {s t rest rest' : List Char} (hs : (word s).Delimited rest) :
    s ++ rest ≠ Text.quoted '\x27' t ++ rest' := by
  intro h
  have htake := congrArg (List.takeWhile isWordChar) h
  rw [takeWhile_word hs.1.1 hs.2] at htake
  exact hs.1.2 .opening (by decide) htake.symm

private theorem quoted_ne_mark {s rest rest' : List Char} {m : Mark} (hm : m ∈ Mark.all) :
    Text.quoted '\x27' s ++ rest ≠ m.chars ++ rest' := by
  intro h
  have hall : ∀ m ∈ Mark.all, m.chars ≠ [] ∧ m.chars.head? ≠ some '\x27' := by decide +kernel
  obtain ⟨hne, hhead⟩ := hall m hm
  obtain ⟨c, cs, hcs⟩ := List.exists_cons_of_ne_nil hne
  rw [hcs] at h hhead
  exact hhead (congrArg some (List.cons.inj h).1.symm)

theorem eq_of_append_eq {a b : Lexeme} {rest rest' : List Char} (ha : a.Delimited rest)
    (hb : b.Delimited rest') (h : a.chars ++ rest = b.chars ++ rest') : a = b ∧ rest = rest' := by
  have hquote : ∀ {r : List Char}, Stops r → r.head? ≠ some '\x27' := by
    intro r hr hhead
    rcases hr _ hhead with h | h <;> cases h
  cases a with
  | word s =>
      cases b with
      | word t =>
          have htake := congrArg (List.takeWhile isWordChar) h
          rw [chars, chars, takeWhile_word ha.1.1 ha.2, takeWhile_word hb.1.1 hb.2] at htake
          subst htake
          exact ⟨rfl, List.append_cancel_left h⟩
      | quoted t => exact absurd h (word_ne_quoted ha)
      | mark n => exact absurd h (word_ne_mark ha hb)
  | quoted s =>
      cases b with
      | word t => exact absurd h.symm (word_ne_quoted hb)
      | quoted t =>
          obtain ⟨rfl, hrest⟩ := Text.quoted_append_inj (hquote ha) (hquote hb) h
          exact ⟨rfl, hrest⟩
      | mark n => exact absurd h (quoted_ne_mark hb.1)
  | mark m =>
      cases b with
      | word t => exact absurd h.symm (word_ne_mark hb ha)
      | quoted t => exact absurd h.symm (quoted_ne_mark ha.1)
      | mark n =>
          have hprefix : m.chars <+: n.chars ∨ n.chars <+: m.chars :=
            List.prefix_or_prefix_of_prefix (List.prefix_append _ _) ⟨rest', h.symm⟩
          have hmn : m = n := by
            rcases hprefix with hp | hp
            · exact Mark.eq_of_prefix ha.1 hb.1 hp
            · exact (Mark.eq_of_prefix hb.1 ha.1 hp).symm
          subst hmn
          exact ⟨rfl, List.append_cancel_left h⟩

private theorem chars_ne_nil {a : Lexeme} {rest : List Char} (h : a.Delimited rest) :
    a.chars ≠ [] := by
  cases a with
  | word s => exact fun hs => h.1.2 .opening (by decide) hs.symm
  | quoted s => simp [chars, Text.quoted]
  | mark m =>
      have hall : ∀ m ∈ Mark.all, m.chars ≠ [] := by decide +kernel
      exact hall m h.1

/-- Delimited lexemes can be read off the text they spell. -/
theorem spell_injective {l k : List Lexeme} (hl : AllDelimited l) (hk : AllDelimited k)
    (h : spell l = spell k) : l = k := by
  induction l generalizing k with
  | nil =>
      cases k with
      | nil => rfl
      | cons b k =>
          have hnil := (List.append_eq_nil_iff.mp h.symm).1
          exact absurd hnil (chars_ne_nil hk.1)
  | cons a l ih =>
      cases k with
      | nil =>
          have hnil := (List.append_eq_nil_iff.mp h).1
          exact absurd hnil (chars_ne_nil hl.1)
      | cons b k =>
          obtain ⟨rfl, hrest⟩ := eq_of_append_eq hl.1 hk.1 h
          rw [ih hl.2 hk.2 hrest]

end Lexeme

end QueryExpr
