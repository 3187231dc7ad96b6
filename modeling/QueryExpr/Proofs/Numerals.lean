import Mathlib.Data.List.TakeWhile
import QueryExpr.Text.Blank
import QueryExpr.Text.Numeral

/-!
# Integer numerals and the integers they denote

A numeral is an optional sign and one or more decimal digits, and it denotes what the digits do in
base ten. The reader holds the value within a range at every digit and still finds exactly the
numerals of the integers in the range, since further digits only lead further away from zero.
-/

namespace QueryExpr.Text

section Blanks

/-- The second text is what is left of the first one without the blanks at its two ends. -/
structure Stripped (s t : List Char) : Prop where
  around : ∃ before after, s = before ++ (t ++ after) ∧ (∀ c ∈ before, isBlank c = true) ∧
    ∀ c ∈ after, isBlank c = true
  first : ∀ c ∈ t.head?, isBlank c = false
  last : ∀ c ∈ t.getLast?, isBlank c = false

variable {s t : List Char}

private theorem dropWhile_blanks {before : List Char} (hbefore : ∀ c ∈ before, isBlank c = true)
    (hfirst : ∀ c ∈ t.head?, isBlank c = false) : (before ++ t).dropWhile isBlank = t := by
  rw [List.dropWhile_append_of_pos hbefore]
  cases t with
  | nil => rfl
  | cons c t => rw [List.dropWhile_cons_of_neg (by simp [hfirst c rfl])]

private theorem isBlank_of_mem_takeWhile : ∀ c ∈ s.takeWhile isBlank, isBlank c = true :=
  fun _ hc => List.mem_takeWhile_imp hc

private theorem not_isBlank_head_dropWhile :
    ∀ c ∈ (s.dropWhile isBlank).head?, isBlank c = false := by
  intro c hc
  have hhead := List.head?_dropWhile_not isBlank s
  rwa [Option.mem_def.mp hc] at hhead

theorem stripped_trim (s : List Char) : Stripped s (trim s) := by
  -- The blanks at the end are dropped from the reversed text.
  let back := (s.dropWhile isBlank).reverse
  have hsplit : s.dropWhile isBlank = trim s ++ (back.takeWhile isBlank).reverse := by
    rw [trim, ← List.reverse_append, List.takeWhile_append_dropWhile, List.reverse_reverse]
  refine ⟨⟨s.takeWhile isBlank, (back.takeWhile isBlank).reverse, ?_, isBlank_of_mem_takeWhile,
    fun c hc => isBlank_of_mem_takeWhile c (List.mem_reverse.mp hc)⟩, fun c hc => ?_, ?_⟩
  · rw [← hsplit, List.takeWhile_append_dropWhile]
  · have hhead : c ∈ (s.dropWhile isBlank).head? := by
      rw [hsplit, List.head?_append, Option.mem_def.mp hc]
      rfl
    exact not_isBlank_head_dropWhile c hhead
  · rw [trim, List.getLast?_reverse]
    exact not_isBlank_head_dropWhile

theorem Stripped.trim_eq (h : Stripped s t) : trim s = t := by
  obtain ⟨before, after, rfl, hbefore, hafter⟩ := h.around
  by_cases ht : t = []
  · subst ht
    have hblank : (before ++ ([] ++ after)).dropWhile isBlank = [] := by
      rw [List.nil_append, List.dropWhile_append_of_pos hbefore,
        List.dropWhile_eq_nil_iff.mpr hafter]
    rw [trim, hblank]
    rfl
  · have hfirst : ∀ c ∈ (t ++ after).head?, isBlank c = false := by
      obtain ⟨c, u, rfl⟩ := List.exists_cons_of_ne_nil ht
      exact h.first
    have hlast : ∀ c ∈ t.reverse.head?, isBlank c = false := by
      rw [List.head?_reverse]
      exact h.last
    rw [trim, dropWhile_blanks hbefore hfirst, List.reverse_append,
      dropWhile_blanks (fun c hc => hafter c (List.mem_reverse.mp hc)) hlast, List.reverse_reverse]

theorem stripped_iff : Stripped s t ↔ trim s = t :=
  ⟨Stripped.trim_eq, fun h => h ▸ stripped_trim s⟩

end Blanks

section Reading

/-- One or more decimal digits. -/
def IsDecimal (s : List Char) : Prop := s ≠ [] ∧ ∀ c ∈ s, c.isDigit = true

/-- The text is a numeral and denotes the integer. -/
inductive IsNumeral : List Char → Int → Prop
  | unsigned {digits : List Char} (h : IsDecimal digits) :
      IsNumeral digits (Nat.ofDigitChars 10 digits 0)
  | positive {digits : List Char} (h : IsDecimal digits) :
      IsNumeral ('+' :: digits) (Nat.ofDigitChars 10 digits 0)
  | negative {digits : List Char} (h : IsDecimal digits) :
      IsNumeral ('-' :: digits) (-(Nat.ofDigitChars 10 digits 0 : Int))

/-- The integer of a magnitude and a sign. -/
def signed (negative : Bool) (magnitude : Nat) : Int :=
  if negative then -(magnitude : Int) else magnitude

variable {lo hi : Int} {negative : Bool} {text : List Char} {n : Int}

theorem le_ofDigitChars (text : List Char) (m : Nat) : m ≤ Nat.ofDigitChars 10 text m := by
  induction text generalizing m with
  | nil => exact Nat.le_refl m
  | cons c text ih =>
      rw [Nat.ofDigitChars_cons]
      have hle := ih (10 * m + (c.toNat - '0'.toNat))
      omega

/-- A range around zero holds with an integer those of the same sign that are nearer to zero. -/
private theorem signed_within {k m : Nat} (hlo : lo ≤ 0) (hhi : 0 ≤ hi) (hkm : k ≤ m)
    (h : lo ≤ signed negative m ∧ signed negative m ≤ hi) :
    lo ≤ signed negative k ∧ signed negative k ≤ hi := by
  cases negative <;> simp only [signed, if_true, Bool.false_eq_true, if_false] at h ⊢ <;> omega

private theorem signed_append_digit (m d : Nat) :
    signed negative m * 10 + (if negative then -(d : Int) else d) =
      signed negative (10 * m + d) := by
  cases negative <;> simp only [signed, if_true, Bool.false_eq_true, if_false] <;> omega

/-- The digits are read on from a value whenever the value they lead to is in range. -/
theorem readDigits_eq_ok_iff (hlo : lo ≤ 0) (hhi : 0 ≤ hi) {m : Nat}
    (hm : lo ≤ signed negative m ∧ signed negative m ≤ hi) :
    readDigits lo hi negative (signed negative m) text = .ok n ↔
      (∀ c ∈ text, c.isDigit = true) ∧ n = signed negative (Nat.ofDigitChars 10 text m) ∧
        lo ≤ n ∧ n ≤ hi := by
  induction text generalizing m with
  | nil =>
      rw [readDigits, Except.ok.injEq]
      constructor
      · rintro rfl
        exact ⟨nofun, rfl, hm⟩
      · rintro ⟨-, rfl, -⟩
        rfl
  | cons c text ih =>
      by_cases hc : c.isDigit = true
      · have hdigit : digit? c = some (c.toNat - '0'.toNat) := if_pos hc
        simp only [readDigits, hdigit, signed_append_digit, Nat.ofDigitChars_cons,
          List.forall_mem_cons, hc, true_and]
        generalize 10 * m + (c.toNat - '0'.toNat) = next
        by_cases hnext : lo ≤ signed negative next ∧ signed negative next ≤ hi
        · rw [if_neg (Int.not_lt.mpr hnext.2), if_neg (Int.not_lt.mpr hnext.1)]
          exact ih hnext
        · constructor
          · intro h
            split at h
            · cases h
            · split at h
              · cases h
              · exact absurd ⟨Int.not_lt.mp ‹_›, Int.not_lt.mp ‹_›⟩ hnext
          · rintro ⟨-, rfl, hrange⟩
            exact absurd (signed_within hlo hhi (le_ofDigitChars text next) hrange) hnext
      · have hdigit : digit? c = none := if_neg hc
        simp [readDigits, hdigit, hc]

private theorem readDigits_zero (hlo : lo ≤ 0) (hhi : 0 ≤ hi) (htext : text ≠ []) :
    readDigits lo hi negative 0 text = .ok n ↔
      IsDecimal text ∧ n = signed negative (Nat.ofDigitChars 10 text 0) ∧ lo ≤ n ∧ n ≤ hi := by
  have hzero : signed negative 0 = 0 := by cases negative <;> rfl
  have hread : readDigits lo hi negative (signed negative 0) text = .ok n ↔ _ :=
    readDigits_eq_ok_iff hlo hhi (by rw [hzero]; exact ⟨hlo, hhi⟩)
  rw [hzero] at hread
  rw [hread, IsDecimal, and_assoc]
  exact ⟨fun h => ⟨htext, h⟩, And.right⟩

private theorem readInteger_signed {sign : Char} (hsign : sign = '+' ∨ sign = '-')
    (htext : text ≠ []) :
    readInteger lo hi (sign :: text) = readDigits lo hi (sign == '-') 0 text := by
  obtain ⟨c, cs, rfl⟩ := List.exists_cons_of_ne_nil htext
  rcases hsign with rfl | rfl <;> rfl

private theorem readInteger_unsigned (htext : IsDecimal text) :
    readInteger lo hi text = readDigits lo hi false 0 text := by
  obtain ⟨hne, hdigits⟩ := htext
  unfold readInteger
  split
  · exact absurd rfl hne
  all_goals first | rfl | exact absurd (hdigits _ List.mem_cons_self) (by decide)

theorem readInteger_eq_ok_iff (hlo : lo ≤ 0) (hhi : 0 ≤ hi) :
    readInteger lo hi text = .ok n ↔ IsNumeral text n ∧ lo ≤ n ∧ n ≤ hi := by
  constructor
  · intro h
    unfold readInteger at h
    split at h
    · cases h
    · cases h
    · cases h
    · rename_i digits hne
      have htext : digits ≠ [] := fun hnil => hne (by rw [hnil])
      obtain ⟨hdecimal, rfl, hrange⟩ := (readDigits_zero hlo hhi htext).mp h
      exact ⟨.positive hdecimal, hrange⟩
    · rename_i digits hne
      have htext : digits ≠ [] := fun hnil => hne (by rw [hnil])
      obtain ⟨hdecimal, rfl, hrange⟩ := (readDigits_zero hlo hhi htext).mp h
      exact ⟨.negative hdecimal, hrange⟩
    · rename_i hne _ _ _ _
      obtain ⟨hdecimal, rfl, hrange⟩ := (readDigits_zero hlo hhi hne).mp h
      exact ⟨.unsigned hdecimal, hrange⟩
  · rintro ⟨h, hrange⟩
    cases h with
    | unsigned h =>
        rw [readInteger_unsigned h, readDigits_zero hlo hhi h.1]
        exact ⟨h, rfl, hrange⟩
    | positive h =>
        rw [readInteger_signed (Or.inl rfl) h.1, readDigits_zero hlo hhi h.1]
        exact ⟨h, rfl, hrange⟩
    | negative h =>
        rw [readInteger_signed (Or.inr rfl) h.1, readDigits_zero hlo hhi h.1]
        exact ⟨h, rfl, hrange⟩

end Reading

section Writing

theorem toList_writeInteger (i : Int) :
    (writeInteger i).toList = (if i < 0 then ['-'] else []) ++ Nat.toDigits 10 i.natAbs :=
  String.toList_ofList

theorem isDigit_of_mem_decimal {n : Nat} {c : Char} (h : c ∈ Nat.toDigits 10 n) :
    c.isDigit = true := Nat.isDigit_of_mem_toDigits (by decide) (by decide) h

theorem decimal_injective {m n : Nat} (h : Nat.toDigits 10 m = Nat.toDigits 10 n) : m = n := by
  rw [← @Nat.ofDigitChars_ten_toDigits m, h, Nat.ofDigitChars_ten_toDigits]

theorem decimal_ne_minus {n : Nat} {text : List Char} : Nat.toDigits 10 n ≠ '-' :: text := by
  intro h
  have := isDigit_of_mem_decimal (h ▸ List.mem_cons_self : '-' ∈ Nat.toDigits 10 n)
  simp at this

theorem writeInteger_injective {i j : Int} (h : writeInteger i = writeInteger j) : i = j := by
  have htext := congrArg String.toList h
  rw [toList_writeInteger, toList_writeInteger] at htext
  split at htext
  · split at htext
    · have := decimal_injective (List.append_cancel_left htext)
      omega
    · exact absurd htext.symm decimal_ne_minus
  · split at htext
    · exact absurd htext decimal_ne_minus
    · have := decimal_injective htext
      omega

theorem isNumeral_writeInteger (i : Int) : IsNumeral (writeInteger i).toList i := by
  have hdecimal : IsDecimal (Nat.toDigits 10 i.natAbs) :=
    ⟨Nat.toDigits_ne_nil, fun _ => isDigit_of_mem_decimal⟩
  rw [toList_writeInteger]
  split
  · have hneg : -(i.natAbs : Int) = i := by omega
    have h := IsNumeral.negative hdecimal
    rw [Nat.ofDigitChars_ten_toDigits, hneg] at h
    exact h
  · have hpos : (i.natAbs : Int) = i := by omega
    have h := IsNumeral.unsigned hdecimal
    rw [Nat.ofDigitChars_ten_toDigits, hpos] at h
    exact h

end Writing

private theorem not_isBlank_of_isDigit {c : Char} (h : c.isDigit = true) : isBlank c = false := by
  have hdigit : 48 ≤ c.toNat ∧ c.toNat ≤ 57 := Char.isDigit_iff_toNat.mp h
  have hapart : ∀ range ∈ blank, range.2 < 48 ∨ 57 < range.1 := by decide
  apply CodePoints.contains_eq_false
  intro range hrange
  have := hapart range hrange
  omega

theorem IsNumeral.stripped {text : List Char} {n : Int} (h : IsNumeral text n) :
    Stripped text text := by
  have hchars : ∀ c ∈ text, isBlank c = false := by
    cases h with
    | unsigned h => exact fun c hc => not_isBlank_of_isDigit (h.2 c hc)
    | positive h | negative h =>
        exact List.forall_mem_cons.mpr ⟨rfl, fun c hc => not_isBlank_of_isDigit (h.2 c hc)⟩
  exact ⟨⟨[], [], by simp, nofun, nofun⟩, fun c hc => hchars c (List.mem_of_mem_head? hc),
    fun c hc => hchars c (List.mem_of_mem_getLast? hc)⟩

end QueryExpr.Text
