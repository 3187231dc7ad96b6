import QueryExpr.Proofs.Conversion
import QueryExpr.Proofs.Numerals

/-!
# Integers and their texts

A text converts to an integer type when it is a numeral between blanks and the type has room for
the integer it denotes. Both widths read the same numerals, so they differ by their range alone, and
what is written of an integer is read as that integer again, the least one of its width included.
-/

namespace QueryExpr

namespace Text

/-- The text is a numeral of the integer, with any blanks around it. -/
def Spells (s : String) (n : Int) : Prop := ∃ t, Stripped s.toList t ∧ IsNumeral t n

theorem spells_iff {s : String} {n : Int} : Spells s n ↔ IsNumeral (trim s.toList) n := by
  simp only [Spells, stripped_iff, exists_eq_left']

theorem spells_writeInteger (n : Int) : Spells (writeInteger n) n :=
  ⟨_, (isNumeral_writeInteger n).stripped, isNumeral_writeInteger n⟩

private theorem readInteger_map_eq_ok_iff {α : Type} {ofInt : Int → α} {toInt : α → Int}
    {lo hi : Int} (hlo : lo ≤ 0) (hhi : 0 ≤ hi)
    (hto : ∀ i, lo ≤ i → i ≤ hi → toInt (ofInt i) = i) (hof : ∀ a, ofInt (toInt a) = a)
    (hrange : ∀ a, lo ≤ toInt a ∧ toInt a ≤ hi) {text : List Char} {a : α} :
    (readInteger lo hi text).map ofInt = .ok a ↔ IsNumeral text (toInt a) := by
  constructor
  · intro h
    cases hread : readInteger lo hi text with
    | error fault =>
        rw [hread] at h
        cases h
    | ok i =>
        rw [hread] at h
        cases h
        obtain ⟨hnumeral, hle, hge⟩ := (readInteger_eq_ok_iff hlo hhi).mp hread
        rwa [hto i hle hge]
  · intro h
    have hread : readInteger lo hi text = .ok (toInt a) :=
      (readInteger_eq_ok_iff hlo hhi).mpr ⟨h, hrange a⟩
    rw [hread, Except.map, hof]

theorem readInt32_eq_ok_iff {text : List Char} {n : Int32} :
    readInt32 text = .ok n ↔ IsNumeral text n.toInt :=
  readInteger_map_eq_ok_iff (by decide) (by decide)
    (fun _ hlo hhi => Int32.toInt_ofInt_of_le hlo (Int.lt_add_one_of_le hhi))
    Int32.ofInt_toInt fun n => ⟨n.le_toInt, Int.le_of_lt_add_one n.toInt_lt⟩

theorem readInt64_eq_ok_iff {text : List Char} {n : Int64} :
    readInt64 text = .ok n ↔ IsNumeral text n.toInt :=
  readInteger_map_eq_ok_iff (by decide) (by decide)
    (fun _ hlo hhi => Int64.toInt_ofInt_of_le hlo (Int.lt_add_one_of_le hhi))
    Int64.ofInt_toInt fun n => ⟨n.le_toInt, Int.le_of_lt_add_one n.toInt_lt⟩

end Text

namespace Value

/-- The integer that a value of an integer type is. -/
def integer? : Value → Option Int
  | i32 n => some n.toInt
  | i64 n => some n.toInt
  | _ => none

end Value

namespace Ty

open Text

/-- The integers that the type has room for. -/
def Holds : Ty → Int → Prop
  | i32, n => -2147483648 ≤ n ∧ n < 2147483648
  | i64, n => -9223372036854775808 ≤ n ∧ n < 9223372036854775808
  | _, _ => False

/-- The text converts to the value of this type that is the integer. -/
def ReadsAs (ty : Ty) (s : String) (n : Int) : Prop :=
  ∃ v, ty.convert (.string s) = .ok v ∧ v.ty = ty ∧ v.integer? = some n

variable {ty : Ty} {s : String} {v : Value} {n : Int}

theorem holds_iff : ty.Holds n ↔ ∃ v : Value, v.ty = ty ∧ v.integer? = some n := by
  constructor
  · intro h
    cases ty with
    | i32 => exact ⟨.i32 (.ofInt n), rfl, congrArg some (Int32.toInt_ofInt_of_le h.1 h.2)⟩
    | i64 => exact ⟨.i64 (.ofInt n), rfl, congrArg some (Int64.toInt_ofInt_of_le h.1 h.2)⟩
    | null | unknown | bool | f64 | string => exact h.elim
  · rintro ⟨v, rfl, hv⟩
    cases v with
    | i32 m =>
        cases hv
        exact ⟨m.le_toInt, m.toInt_lt⟩
    | i64 m =>
        cases hv
        exact ⟨m.le_toInt, m.toInt_lt⟩
    | null | bool | f64 | string => cases hv

private theorem readNumeral_eq_ok_iff {α : Type} {r : Except NumeralFault α} {toInt : α → Int}
    {make : α → Value} {text : List Char} (hread : ∀ a, r = .ok a ↔ IsNumeral text (toInt a))
    (hmake : ∀ a, (make a).integer? = some (toInt a))
    (hvalues : v.ty = ty ↔ ∃ a, make a = v) :
    (r.map make).mapError numeralFault = .ok v ↔
      v.ty = ty ∧ ∃ n, v.integer? = some n ∧ IsNumeral text n := by
  have hmade : (r.map make).mapError numeralFault = .ok v ↔ ∃ a, r = .ok a ∧ make a = v := by
    cases r <;> simp [Except.map, Except.mapError]
  rw [hmade, hvalues]
  constructor
  · rintro ⟨a, ha, rfl⟩
    exact ⟨⟨a, rfl⟩, _, hmake a, (hread a).mp ha⟩
  · rintro ⟨⟨a, rfl⟩, n, hn, hnumeral⟩
    obtain rfl : toInt a = n := by rwa [hmake, Option.some.injEq] at hn
    exact ⟨a, (hread a).mpr hnumeral, rfl⟩

/-- What a text converts to is the value of the type that is the integer the text spells. -/
theorem convert_string_eq_ok_iff_spells (hty : ty = .i32 ∨ ty = .i64) :
    ty.convert (.string s) = .ok v ↔ v.ty = ty ∧ ∃ n, v.integer? = some n ∧ Spells s n := by
  rw [convert_string_eq_ok_iff]
  simp only [spells_iff]
  rcases hty with rfl | rfl
  · exact readNumeral_eq_ok_iff (fun _ => readInt32_eq_ok_iff) (fun _ => rfl)
      (by cases v <;> simp [Value.ty])
  · exact readNumeral_eq_ok_iff (fun _ => readInt64_eq_ok_iff) (fun _ => rfl)
      (by cases v <;> simp [Value.ty])

theorem readsAs_iff (hty : ty = .i32 ∨ ty = .i64) :
    ty.ReadsAs s n ↔ Spells s n ∧ ty.Holds n := by
  constructor
  · rintro ⟨v, hconvert, hv, hn⟩
    obtain ⟨-, m, hm, hspells⟩ := (convert_string_eq_ok_iff_spells hty).mp hconvert
    obtain rfl : n = m := by rwa [hn, Option.some.injEq] at hm
    exact ⟨hspells, holds_iff.mpr ⟨v, hv, hn⟩⟩
  · rintro ⟨hspells, hholds⟩
    obtain ⟨v, hv, hn⟩ := holds_iff.mp hholds
    exact ⟨v, (convert_string_eq_ok_iff_spells hty).mpr ⟨hv, n, hn, hspells⟩, hv, hn⟩

theorem readsAs_i32_iff : Ty.i32.ReadsAs s n ↔ Ty.i64.ReadsAs s n ∧ Ty.i32.Holds n := by
  rw [readsAs_iff (Or.inl rfl), readsAs_iff (Or.inr rfl), and_assoc]
  refine and_congr_right fun _ => ⟨fun h => ⟨?_, h⟩, And.right⟩
  simp only [Holds] at h ⊢
  omega

theorem convert_string_error_of_not_readsAs (hty : ty = .i32 ∨ ty = .i64)
    (h : ∀ n, ¬ty.ReadsAs s n) :
    ∃ e, ty.convert (.string s) = .error e ∧ e.isConversion = true := by
  cases hconvert : ty.convert (.string s) with
  | ok v =>
      obtain ⟨hv, n, hn, -⟩ := (convert_string_eq_ok_iff_spells hty).mp hconvert
      exact absurd ⟨v, hconvert, hv, hn⟩ (h n)
  | error e => exact ⟨e, rfl, isConversion_of_convert_error hconvert⟩

private theorem convert_writeInteger (hn : v.integer? = some n) (hty : v.ty = .i32 ∨ v.ty = .i64) :
    (Ty.string.convert v).bind v.ty.convert = .ok v := by
  have hwrite : Ty.string.convert v = .ok (.string (writeInteger n)) := by
    cases v <;> cases hn <;> rfl
  rw [hwrite, Except.bind]
  exact (convert_string_eq_ok_iff_spells hty).mpr ⟨rfl, n, hn, spells_writeInteger n⟩

theorem convert_string_convert (hv : v.ty = .i32 ∨ v.ty = .i64 ∨ v.ty = .bool) :
    (Ty.string.convert v).bind v.ty.convert = .ok v := by
  cases v with
  | i32 m => exact convert_writeInteger rfl (Or.inl rfl)
  | i64 m => exact convert_writeInteger rfl (Or.inr rfl)
  | bool b => cases b <;> rfl
  | null | f64 | string => simp [Value.ty] at hv

/--
Conversion between texts and integers is exact. A text converts to an integer type, with the integer
as the result, just when it spells an integer that the type holds; the narrow type therefore
reads what the wide one reads within the narrow range. Any other text is a failure of conversion.
And integers and booleans written as text are read as they were.
-/
theorem integer_text_exact (hty : ty = .i32 ∨ ty = .i64)
    (hv : v.ty = .i32 ∨ v.ty = .i64 ∨ v.ty = .bool) :
    (∀ s n, ty.ReadsAs s n ↔ Spells s n ∧ ty.Holds n) ∧
      (∀ s n, Ty.i32.ReadsAs s n ↔ Ty.i64.ReadsAs s n ∧ Ty.i32.Holds n) ∧
      (∀ s, (¬∃ n, Spells s n ∧ ty.Holds n) →
        ∃ e, ty.convert (.string s) = .error e ∧ e.isConversion = true) ∧
      (Ty.string.convert v).bind v.ty.convert = .ok v := by
  refine ⟨fun s n => readsAs_iff hty, fun s n => readsAs_i32_iff, fun s h => ?_,
    convert_string_convert hv⟩
  exact convert_string_error_of_not_readsAs hty fun n hn => h ⟨n, (readsAs_iff hty).mp hn⟩

/-- A signed numeral between blanks, the first integer too large, the least one there and back. -/
theorem integer_text_exact_narrow :
    Ty.i32.ReadsAs "\u00a0-0012\n" (-12) ∧ Ty.i64.ReadsAs "\u00a0-0012\n" (-12) ∧
      (∃ e, Ty.i32.convert (.string "2147483648") = .error e ∧ e.isConversion = true) ∧
      (Ty.string.convert (.i32 Int32.minValue)).bind Ty.i32.convert =
        .ok (.i32 Int32.minValue) := by
  obtain ⟨hreads, hnarrow, herror, hback⟩ :=
    integer_text_exact (v := .i32 Int32.minValue) (Or.inl (Eq.refl Ty.i32)) (Or.inl rfl)
  have hspells : Spells "\u00a0-0012\n" (-12) :=
    spells_iff.mpr (@IsNumeral.negative "0012".toList ⟨by decide, by simp⟩)
  have hreadsNarrow : Ty.i32.ReadsAs "\u00a0-0012\n" (-12) :=
    (hreads _ _).mpr ⟨hspells, by decide, by decide⟩
  refine ⟨hreadsNarrow, ((hnarrow _ _).mp hreadsNarrow).1, herror _ ?_, hback⟩
  rintro ⟨n, hn⟩
  obtain ⟨v, hv, -⟩ := (hreads _ n).mpr hn
  cases hv

end Ty

end QueryExpr
