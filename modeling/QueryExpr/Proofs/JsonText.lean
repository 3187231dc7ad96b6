import QueryExpr.Json.Codec
import QueryExpr.Proofs.Numerals

/-!
# Reading back what is written

Types, and values other than doubles, are read back from their JSON text as what they are, and so
are lists of them. A double takes two roundings on its way from the digits and need not come back.
-/

namespace QueryExpr.Json

/-- The reader takes exactly this text off the front of any text that begins with it. -/
def Takes {α : Type} (reader : Reader α) (text : String) (a : α) : Prop :=
  ∀ rest, reader (text.toList ++ rest) = some (a, rest)

/-! ## Strings -/

/-- A control character is written with four hexadecimal digits, of which two are zeros. -/
private theorem hexUnit?_control : ∀ n < 0x20,
    (if n < 0x10 then ['0'] else []) ++ Nat.toDigits 16 n =
        [(n / 16).digitChar, (n % 16).digitChar] ∧
      hexUnit? '0' '0' (n / 16).digitChar (n % 16).digitChar = some n := by decide

private theorem readStringTail_plain {c : Char} (hquote : c ≠ '\x22') (hescape : c ≠ '\\')
    (hcontrol : ¬ c.toNat < 0x20) (s : List Char) :
    readStringTail (c :: s) = (readStringTail s).map (prepend c) := by
  rw [readStringTail, if_neg hcontrol]
  · exact hquote
  · rintro _ _ _ _ _ rfl
    exact absurd rfl hescape
  · rintro _ _ rfl
    exact absurd rfl hescape

private theorem readStringTail_escape (c : Char) (s : List Char) :
    readStringTail (escape c ++ s) = (readStringTail s).map (prepend c) := by
  unfold escape
  split
  case h_8 hquote hescape _ _ _ _ _ =>
    split
    · rename_i hcontrol
      obtain ⟨hdigits, hunit⟩ := hexUnit?_control c.toNat hcontrol
      have hscalar : ¬ (0xD800 ≤ c.toNat ∧ c.toNat < 0xE000) := by omega
      simp only [List.cons_append, hdigits, List.nil_append, readStringTail, hunit,
        if_neg hscalar, Char.ofNat_toNat]
    · rename_i hcontrol
      exact readStringTail_plain hquote hescape hcontrol s
  all_goals rfl

private theorem readStringTail_flatMap (s rest : List Char) :
    readStringTail (s.flatMap escape ++ '\x22' :: rest) = some (s, rest) := by
  induction s with
  | nil => rfl
  | cons c s ih =>
      rw [List.flatMap_cons, List.append_assoc, readStringTail_escape, ih]
      rfl

theorem toList_writeString (s : String) :
    (writeString s).toList = '\x22' :: s.toList.flatMap escape ++ ['\x22'] :=
  String.toList_ofList

theorem takes_writeString (s : String) : Takes readString (writeString s) s := by
  intro rest
  rw [toList_writeString, List.append_assoc]
  change (readStringTail (s.toList.flatMap escape ++ '\x22' :: rest)).map _ = _
  rw [readStringTail_flatMap, Option.map_some, String.ofList_toList]

/-! ## Integers -/

/-- A number that stands in front of this text ends there. -/
def EndsNumber (rest : List Char) : Prop :=
  ∀ c ∈ rest.head?, c.isDigit = false ∧ c ≠ '.' ∧ c ≠ 'e' ∧ c ≠ 'E'

section Numbers

variable {rest : List Char}

private theorem readFraction?_of_ends (h : EndsNumber rest) :
    readFraction? rest = some (none, rest) := by
  cases rest with
  | nil => rfl
  | cons c rest =>
      unfold readFraction?
      split
      · rename_i hpoint
        rw [List.cons.injEq] at hpoint
        exact absurd hpoint.1 (h c rfl).2.1
      · rfl

private theorem readExponent?_of_ends (h : EndsNumber rest) :
    readExponent? rest = some (none, rest) := by
  cases rest with
  | nil => rfl
  | cons c rest =>
      have hmark : ¬ (c = 'e' ∨ c = 'E') := not_or.mpr (h c rfl).2.2
      exact if_neg hmark

private theorem takeWhile_of_ends (h : EndsNumber rest) : rest.takeWhile Char.isDigit = [] := by
  cases rest with
  | nil => rfl
  | cons c rest => simp [(h c rfl).1]

private theorem dropWhile_of_ends (h : EndsNumber rest) : rest.dropWhile Char.isDigit = rest := by
  cases rest with
  | nil => rfl
  | cons c rest => simp [(h c rfl).1]

private theorem digitChar_eq_zero : ∀ n < 10, n.digitChar = '0' → n = 0 := by decide

private theorem head?_decimal {n : Nat} (h : (Nat.toDigits 10 n).head? = some '0') : n = 0 := by
  induction n using Nat.strong_induction_on with
  | _ n ih =>
      by_cases hn : n < 10
      · rw [Nat.toDigits_of_lt_base hn] at h
        exact digitChar_eq_zero n hn (Option.some.inj h)
      · rw [Nat.toDigits_of_base_le (by decide) (by omega), List.head?_append] at h
        cases hhead : (Nat.toDigits 10 (n / 10)).head? with
        | none => exact absurd (List.head?_eq_none_iff.mp hhead) Nat.toDigits_ne_nil
        | some c =>
            rw [hhead, Option.some_or] at h
            have := ih (n / 10) (by omega) (hhead.trans h)
            omega

private theorem appendDigits_eq {text : List Char} {m : Nat}
    (h : Nat.ofDigitChars 10 text m < wordLimit) :
    appendDigits m text = (Nat.ofDigitChars 10 text m, []) := by
  induction text generalizing m with
  | nil => rfl
  | cons c text ih =>
      rw [Nat.ofDigitChars_cons] at h ⊢
      have hnext : m * 10 + (c.toNat - 48) = 10 * m + (c.toNat - '0'.toNat) := by
        rw [Nat.mul_comm]
        rfl
      have hfits := Nat.lt_of_le_of_lt (Text.le_ofDigitChars _ _) h
      rw [appendDigits, hnext]
      simp only [if_pos hfits]
      exact ih h

private theorem readUnsigned?_decimal (negative : Bool) {n : Nat} (hn : n < wordLimit)
    (hrest : EndsNumber rest) :
    readUnsigned? negative (Nat.toDigits 10 n ++ rest) = some (wholeNumber negative n, rest) := by
  have hdigits : ∀ c ∈ Nat.toDigits 10 n, c.isDigit = true := fun _ => Text.isDigit_of_mem_decimal
  have hwhole : (Nat.toDigits 10 n ++ rest).takeWhile Char.isDigit = Nat.toDigits 10 n := by
    rw [List.takeWhile_append_of_pos hdigits, takeWhile_of_ends hrest, List.append_nil]
  have hbehind : (Nat.toDigits 10 n ++ rest).dropWhile Char.isDigit = rest := by
    rw [List.dropWhile_append_of_pos hdigits, dropWhile_of_ends hrest]
  have hplain : ¬ ((Nat.toDigits 10 n).isEmpty = true ∨
      (Nat.toDigits 10 n).head? = some '0' ∧ 1 < (Nat.toDigits 10 n).length) := by
    rintro (hnil | ⟨hzero, hlong⟩)
    · exact Nat.toDigits_ne_nil (List.isEmpty_iff.mp hnil)
    · rw [head?_decimal hzero] at hlong
      exact absurd hlong (by decide)
  have hvalue : appendDigits 0 (Nat.toDigits 10 n) = (n, []) := by
    have heq := Nat.ofDigitChars_ten_toDigits (n := n)
    rw [appendDigits_eq (by rwa [heq]), heq]
  unfold readUnsigned?
  simp only [hwhole, hbehind, if_neg hplain, readFraction?_of_ends hrest,
    readExponent?_of_ends hrest, hvalue, Option.bind_eq_bind, Option.bind_some]
  rfl

/-- Integers that a signed or an unsigned word holds are read back. -/
theorem readNumber?_writeInteger {i : Int} (hlo : Int64.minValue.toInt ≤ i) (hhi : i < wordLimit)
    (hrest : EndsNumber rest) :
    readNumber? ((Text.writeInteger i).toList ++ rest) = some (.integer i, rest) := by
  have hmin : Int64.minValue.toInt = -9223372036854775808 := by decide
  have hlimit : wordLimit = 18446744073709551616 := rfl
  rw [Text.toList_writeInteger]
  by_cases hi : i < 0
  · have hwhole : wholeNumber true i.natAbs = .integer i := by
      unfold wholeNumber
      rw [if_neg (by rw [hmin]; omega)]
      simp only [if_true]
      congr 1
      omega
    rw [if_pos hi]
    change readUnsigned? true (Nat.toDigits 10 i.natAbs ++ rest) = _
    rw [readUnsigned?_decimal true (by omega) hrest, hwhole]
  · have hwhole : wholeNumber false i.natAbs = .integer i := by
      unfold wholeNumber
      simp only [Bool.false_eq_true, false_and, if_false]
      congr 1
      omega
    have hunsigned : readNumber? (Nat.toDigits 10 i.natAbs ++ rest) =
        readUnsigned? false (Nat.toDigits 10 i.natAbs ++ rest) := by
      unfold readNumber?
      split
      · rename_i s hs
        obtain ⟨c, cs, hcs⟩ := List.exists_cons_of_ne_nil (@Nat.toDigits_ne_nil i.natAbs 10)
        rw [hcs, List.cons_append, List.cons.injEq] at hs
        exact absurd (hs.1 ▸ hcs) Text.decimal_ne_minus
      · rfl
    rw [if_neg hi, List.nil_append, hunsigned, readUnsigned?_decimal false (by omega) hrest, hwhole]

theorem skipSpace_cons {c : Char} (h : isSpace c = false) (s : List Char) :
    skipSpace (c :: s) = c :: s := List.dropWhile_cons_of_neg (by simp [h])

private theorem isSpace_of_isDigit {c : Char} (h : c.isDigit = true) : isSpace c = false := by
  rw [Bool.eq_false_iff]
  intro hspace
  simp only [isSpace, Bool.or_eq_true, beq_iff_eq] at hspace
  rcases hspace with ((rfl | rfl) | rfl) | rfl <;> simp at h

private theorem skipSpace_writeInteger (i : Int) (rest : List Char) :
    skipSpace ((Text.writeInteger i).toList ++ rest) = (Text.writeInteger i).toList ++ rest := by
  rw [Text.toList_writeInteger]
  by_cases hi : i < 0
  · rw [if_pos hi]
    exact skipSpace_cons (by decide) _
  · obtain ⟨c, cs, hcs⟩ := List.exists_cons_of_ne_nil (@Nat.toDigits_ne_nil i.natAbs 10)
    rw [if_neg hi, List.nil_append, hcs]
    exact skipSpace_cons
      (isSpace_of_isDigit (Text.isDigit_of_mem_decimal (hcs ▸ List.mem_cons_self))) _

private theorem readInteger_writeInteger {lo hi i : Int} (hi_range : lo ≤ i ∧ i ≤ hi)
    (hrange : Int64.minValue.toInt ≤ lo ∧ hi < wordLimit) (hrest : EndsNumber rest) :
    readInteger lo hi ((Text.writeInteger i).toList ++ rest) = some (i, rest) := by
  unfold readInteger
  rw [skipSpace_writeInteger, readNumber?_writeInteger (by omega) (by omega) hrest]
  exact if_pos hi_range

end Numbers

/-! ## Values and types -/

theorem toList_tagged (tag text : String) :
    (tagged tag text).toList =
      '\x7b' :: (writeString tag).toList ++ ':' :: text.toList ++ ['\x7d'] := by
  simp [tagged, String.toList_append]

section Tagged

variable {α : Type} {body : String → Reader α} {bare : String → Option α} {tag : String} {a : α}

theorem takes_tagged {text : String}
    (h : ∀ rest, body tag (text.toList ++ '\x7d' :: rest) = some (a, '\x7d' :: rest)) :
    Takes (readTagged body bare) (tagged tag text) a := by
  intro rest
  have hname := takes_writeString tag (':' :: (text.toList ++ '\x7d' :: rest))
  have htext : (tagged tag text).toList ++ rest =
      '\x7b' :: ((writeString tag).toList ++ ':' :: (text.toList ++ '\x7d' :: rest)) := by
    simp [toList_tagged]
  rw [htext]
  change (readString _ >>= _) = _
  rw [hname]
  change (body tag _ >>= _) = _
  rw [h]
  rfl

theorem takes_bare (h : bare tag = some a) :
    Takes (readTagged body bare) (writeString tag) a := by
  intro rest
  have hname := takes_writeString tag rest
  rw [toList_writeString] at hname ⊢
  change (readString _ >>= _) = _
  rw [hname]
  change (bare tag >>= _) = _
  rw [h]
  rfl

end Tagged

theorem takes_writeTy (t : Ty) : Takes readTy (writeTy t) t :=
  takes_bare (by cases t <;> rfl)

private theorem expectWord_append {word : String} {c : Char} {cs : List Char}
    (hword : word.toList = c :: cs) (hc : isSpace c = false) (rest : List Char) :
    expectWord word (word.toList ++ rest) = some rest := by
  have hskip : skipSpace (word.toList ++ rest) = word.toList ++ rest := by
    rw [hword]
    exact skipSpace_cons hc _
  have hprefix : word.toList.isPrefixOf (word.toList ++ rest) = true :=
    List.isPrefixOf_iff_prefix.mpr (List.prefix_append _ _)
  unfold expectWord
  simp only [hskip, hprefix, if_true, ← String.length_toList, List.drop_left]

private theorem endsNumber_brace (rest : List Char) : EndsNumber ('\x7d' :: rest) := by
  intro c hc
  cases hc
  decide

/-- A value that is no double is read back. -/
theorem takes_writeValue {v : Value} (hv : v.ty ≠ .f64) : Takes readValue (writeValue v) v := by
  cases v with
  | null => exact takes_bare rfl
  | bool b =>
      apply takes_tagged
      intro rest
      rw [content, readBool]
      cases b with
      | true =>
          rw [if_pos rfl, expectWord_append rfl (by decide)]
          rfl
      | false =>
          have hother : expectWord "true" ("false".toList ++ '\x7d' :: rest) = none := rfl
          rw [if_neg Bool.false_ne_true, hother, expectWord_append rfl (by decide)]
          rfl
  | i32 n =>
      apply takes_tagged
      intro rest
      rw [content, readInteger_writeInteger ⟨Int32.minValue_le_toInt n, Int32.toInt_le n⟩
        (by decide) (endsNumber_brace rest)]
      simp
  | i64 n =>
      apply takes_tagged
      intro rest
      rw [content, readInteger_writeInteger ⟨Int64.minValue_le_toInt n, Int64.toInt_le n⟩
        (by decide) (endsNumber_brace rest)]
      simp
  | f64 x => exact absurd rfl hv
  | string s =>
      apply takes_tagged
      intro rest
      rw [content, takes_writeString]
      rfl

/-! ## Lists -/

section Lists

variable {α : Type} {item : Reader α} {write : α → String}

/-- An item is written so that its reader takes it, and so that it does not end the list. -/
structure Item (item : Reader α) (write : α → String) (a : α) : Prop where
  takes : Takes item (write a) a
  opens : ∃ c cs, (write a).toList = c :: cs ∧ isSpace c = false ∧ c ≠ ']'

private theorem intercalate_cons (x : List Char) (xs : List (List Char)) :
    List.intercalate [','] (x :: xs) = x ++ xs.flatMap (',' :: ·) := by
  induction xs generalizing x with
  | nil => simp
  | cons y ys ih => rw [List.intercalate_cons_cons, ih, List.flatMap_cons, List.append_assoc]; rfl

private theorem readItems_eq {as : List α} (has : ∀ a ∈ as, Item item write a) {bound : Nat}
    (hbound : as.length < bound) (rest : List Char) :
    readItems item bound (as.flatMap (fun a => ',' :: (write a).toList) ++ ']' :: rest) =
      some (as, rest) := by
  induction as generalizing bound with
  | nil =>
      cases bound with
      | zero => simp at hbound
      | succ bound => rfl
  | cons a as ih =>
      cases bound with
      | zero => simp at hbound
      | succ bound =>
          rw [List.flatMap_cons, List.append_assoc, List.cons_append]
          change (item _ >>= _) = _
          rw [(has a List.mem_cons_self).takes]
          change (readItems item bound _ >>= _) = _
          rw [ih (fun b hb => has b (List.mem_cons_of_mem _ hb)) (by simpa using hbound)]
          rfl

private theorem length_le_flatMap (write : α → String) (as : List α) :
    as.length ≤ (as.flatMap fun a => ',' :: (write a).toList).length := by
  induction as with
  | nil => exact Nat.le_refl 0
  | cons a as ih =>
      simp only [List.flatMap_cons, List.length_append, List.length_cons]
      omega

theorem takes_writeList {as : List α} (has : ∀ a ∈ as, Item item write a) :
    Takes (readList item) (writeList write as) as := by
  intro rest
  cases as with
  | nil =>
      have htext : (writeList write ([] : List α)).toList = ['[', ']'] := by simp [writeList]
      rw [htext]
      rfl
  | cons a as =>
      obtain ⟨htakes, c, cs, hwrite, hspace, hopen⟩ := has a List.mem_cons_self
      let others := as.flatMap fun b => ',' :: (write b).toList
      have htext : (writeList write (a :: as)).toList ++ rest =
          '[' :: ((write a).toList ++ (others ++ ']' :: rest)) := by
        simp [others, writeList, String.toList_append, String.toList_intercalate,
          intercalate_cons, List.flatMap_map]
      have hlength : as.length < (others ++ ']' :: rest).length + 1 := by
        have hothers : as.length ≤ others.length := length_le_flatMap write as
        simp only [List.length_append, List.length_cons]
        omega
      have hread : readItems item ((others ++ ']' :: rest).length + 1) (others ++ ']' :: rest) =
          some (as, rest) :=
        readItems_eq (fun b hb => has b (List.mem_cons_of_mem a hb)) hlength rest
      have hskip : skipSpace ((write a).toList ++ (others ++ ']' :: rest)) =
          (write a).toList ++ (others ++ ']' :: rest) := by
        rw [hwrite]
        exact skipSpace_cons hspace _
      have hopened : expect '[' ('[' :: ((write a).toList ++ (others ++ ']' :: rest))) =
          some ((write a).toList ++ (others ++ ']' :: rest)) := rfl
      rw [htext, readList, hopened]
      simp only [Option.bind_eq_bind, Option.bind_some, hskip]
      split
      · rename_i hend
        rw [hwrite, List.cons_append, List.cons.injEq] at hend
        exact absurd hend.1 hopen
      · rw [htakes]
        simp only [Option.bind_some, hread]
        rfl

end Lists

/-! ## Whole texts -/

theorem readAll?_of_takes {α : Type} {reader : Reader α} {text : String} {a : α}
    (h : Takes reader text a) : readAll? reader text = some a := by
  have htext := h []
  rw [List.append_nil] at htext
  simp only [readAll?, htext]
  rfl

theorem readAll?_writeTy (t : Ty) : readAll? readTy (writeTy t) = some t :=
  readAll?_of_takes (takes_writeTy t)

theorem readAll?_writeValue {v : Value} (hv : v.ty ≠ .f64) :
    readAll? readValue (writeValue v) = some v :=
  readAll?_of_takes (takes_writeValue hv)

private theorem item_writeValue {v : Value} (hv : v.ty ≠ .f64) :
    Item readValue writeValue v := by
  refine ⟨takes_writeValue hv, ?_⟩
  cases v with
  | null => exact ⟨'\x22', _, toList_writeString "Null", by decide, by decide⟩
  | bool | i32 | i64 | f64 | string => exact ⟨'\x7b', _, toList_tagged _ _, by decide, by decide⟩

theorem readAll?_writeList_writeValue {vs : List Value} (hvs : ∀ v ∈ vs, v.ty ≠ .f64) :
    readAll? (readList readValue) (writeList writeValue vs) = some vs :=
  readAll?_of_takes (takes_writeList fun v hv => item_writeValue (hvs v hv))

end QueryExpr.Json
