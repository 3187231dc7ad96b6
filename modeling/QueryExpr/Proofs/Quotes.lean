import QueryExpr.Text.Quoted

/-!
# Reading quoted text back

A reader that takes a doubled quote for one character and stops at the first quote that is not
doubled finds the text that was quoted, and leaves what follows, unless that begins with a quote. In
front of something that is left it finds a text only where the quoted text stands.
-/

namespace QueryExpr.Text

/-- Reads from behind the opening quote: the text and what follows the closing quote. -/
def readQuoted (quote : Char) : List Char → List Char × List Char
  | [] => ([], [])
  | [c] => if c = quote then ([], []) else ([c], [])
  | c :: d :: s =>
      if c = quote then
        if d = quote then
          let rest := readQuoted quote s
          (quote :: rest.1, rest.2)
        else ([], d :: s)
      else
        let rest := readQuoted quote (d :: s)
        (c :: rest.1, rest.2)

/-- Reads a quotation from its opening quote on: the text in it and what follows. -/
def unquote? (quote : Char) : List Char → Option (List Char × List Char)
  | [] => none
  | c :: text => if c = quote then some (readQuoted quote text) else none

variable {quote : Char} {s t text rest : List Char}

theorem doubleQuotes_cons_self :
    doubleQuotes quote (quote :: s) = quote :: quote :: doubleQuotes quote s := by
  rw [doubleQuotes, if_pos rfl]

theorem doubleQuotes_cons_of_ne {c : Char} (h : c ≠ quote) :
    doubleQuotes quote (c :: s) = c :: doubleQuotes quote s := by
  rw [doubleQuotes, if_neg h]

theorem readQuoted_cons_of_ne {c : Char} (h : c ≠ quote) (s : List Char) :
    readQuoted quote (c :: s) = (c :: (readQuoted quote s).1, (readQuoted quote s).2) := by
  cases s with
  | nil => simp [readQuoted, h]
  | cons d s => rw [readQuoted, if_neg h]

theorem readQuoted_close (h : rest.head? ≠ some quote) :
    readQuoted quote (quote :: rest) = ([], rest) := by
  cases rest with
  | nil => rw [readQuoted, if_pos rfl]
  | cons d rest =>
      have hd : d ≠ quote := fun hd => h (congrArg some hd)
      rw [readQuoted, if_pos rfl, if_neg hd]

theorem readQuoted_doubleQuotes (s : List Char) (h : rest.head? ≠ some quote) :
    readQuoted quote (doubleQuotes quote s ++ quote :: rest) = (s, rest) := by
  induction s with
  | nil => exact readQuoted_close h
  | cons c s ih =>
      by_cases hc : c = quote
      · rw [hc, doubleQuotes_cons_self, List.cons_append, List.cons_append, readQuoted, if_pos rfl,
          if_pos rfl, ih]
      · rw [doubleQuotes_cons_of_ne hc, List.cons_append, readQuoted_cons_of_ne hc, ih]

/-- What leaves something to read has ended at a quote that is not doubled. -/
theorem eq_of_readQuoted (hrest : rest ≠ []) (h : readQuoted quote text = (s, rest)) :
    text = doubleQuotes quote s ++ quote :: rest ∧ rest.head? ≠ some quote := by
  induction text using readQuoted.induct quote generalizing s with
  | case1 =>
      cases h
      exact absurd rfl hrest
  | case2 =>
      rw [readQuoted, if_pos rfl] at h
      cases h
      exact absurd rfl hrest
  | case3 c hc =>
      rw [readQuoted, if_neg hc] at h
      cases h
      exact absurd rfl hrest
  | case4 text ih =>
      rw [readQuoted, if_pos rfl, if_pos rfl] at h
      cases h
      obtain ⟨htext, hhead⟩ := ih rfl
      rw [doubleQuotes_cons_self]
      exact ⟨congrArg (quote :: quote :: ·) htext, hhead⟩
  | case5 d text hd =>
      rw [readQuoted, if_pos rfl, if_neg hd] at h
      cases h
      exact ⟨rfl, fun hhead => hd (Option.some.inj hhead)⟩
  | case6 c d text hc ih =>
      rw [readQuoted, if_neg hc] at h
      cases h
      obtain ⟨htext, hhead⟩ := ih rfl
      rw [doubleQuotes_cons_of_ne hc]
      exact ⟨congrArg (c :: ·) htext, hhead⟩

theorem unquote?_quoted (s : List Char) (h : rest.head? ≠ some quote) :
    unquote? quote (quoted quote s ++ rest) = some (s, rest) := by
  rw [quoted, List.cons_append, List.cons_append, List.append_assoc, unquote?, if_pos rfl]
  exact congrArg some (readQuoted_doubleQuotes s h)

theorem eq_of_unquote? (hrest : rest ≠ []) (h : unquote? quote text = some (s, rest)) :
    text = quoted quote s ++ rest ∧ rest.head? ≠ some quote := by
  cases text with
  | nil => cases h
  | cons c text =>
      rw [unquote?] at h
      split at h
      · rename_i hc
        obtain ⟨htext, hhead⟩ := eq_of_readQuoted hrest (Option.some.inj h)
        refine ⟨?_, hhead⟩
        rw [hc, htext, quoted, List.cons_append, List.cons_append, List.append_assoc]
        rfl
      · cases h

theorem quoted_append_inj {rest' : List Char} (hrest : rest.head? ≠ some quote)
    (hrest' : rest'.head? ≠ some quote) (h : quoted quote s ++ rest = quoted quote t ++ rest') :
    s = t ∧ rest = rest' := by
  have hread : some (s, rest) = some (t, rest') := by
    rw [← unquote?_quoted s hrest, ← unquote?_quoted t hrest', h]
  exact Prod.mk.inj (Option.some.inj hread)

end QueryExpr.Text
