import QueryExpr.Convert
import QueryExpr.Proofs.Context

/-!
# Laws of conversion

Null converts to null and to nothing else, a value of the target type is left alone, and what a
conversion to a determinate type makes of any other value has that type. A conversion that fails
reports the value's type and the target, and of a text also why it could not be read.
-/

namespace QueryExpr

namespace Value

theorem isNull_iff {v : Value} : v.isNull = true ↔ v = .null := by cases v <;> simp [isNull]

theorem ty_eq_null_iff {v : Value} : v.ty = .null ↔ v = .null := by cases v <;> simp [ty]

end Value

namespace Ty

theorem isIndeterminate_iff {ty : Ty} :
    ty.isIndeterminate = true ↔ ty = .null ∨ ty = .unknown := by cases ty <;> simp [isIndeterminate]

theorem convert_null (ty : Ty) : ty.convert .null = .ok .null := by cases ty <;> rfl

theorem convert_of_ty_eq {ty : Ty} {v : Value} (h : v.ty = ty) : ty.convert v = .ok v := by
  subst h
  cases v <;> rfl

theorem convert_of_isIndeterminate {ty : Ty} (h : ty.isIndeterminate = true) (v : Value) :
    ty.convert v = .ok v := by
  rcases isIndeterminate_iff.mp h with rfl | rfl <;> cases v <;> rfl

private theorem ty_of_numeral {α : Type} {r : Except NumeralFault α} {make : α → Value}
    {w : Value} {ty : Ty} (hmake : ∀ a, (make a).ty = ty)
    (h : (r.map make).mapError numeralFault = .ok w) : w.ty = ty := by
  cases r with
  | error fault => cases h
  | ok a =>
      cases h
      exact hmake a

private theorem ty_of_readText {ty : Ty} {s : String} {w : Value}
    (hty : ty.isIndeterminate = false) (h : ty.readText s = .ok w) : w.ty = ty := by
  cases ty with
  | bool =>
      simp only [readText] at h
      split at h
      · simp only [Except.ok.injEq] at h
        rw [← h, Value.ty]
      · simp at h
  | string =>
      simp only [readText, Except.ok.injEq] at h
      rw [← h, Value.ty]
  | i32 => exact ty_of_numeral (fun _ => rfl) h
  | i64 => exact ty_of_numeral (fun _ => rfl) h
  | f64 => exact ty_of_numeral (fun _ => rfl) h
  | null => simp [isIndeterminate] at hty
  | unknown => simp [isIndeterminate] at hty

theorem convert_string (ty : Ty) (s : String) :
    ty.convert (.string s) = (ty.readText s).mapError fun fault =>
      (Error.of fault).context (Error.conversion (.string s) ty) false := by
  cases ty with
  | string | null | unknown => rfl
  | bool | i32 | i64 | f64 =>
      simp only [convert]
      cases readText _ s <;> rfl

theorem convert_string_eq_ok_iff {ty : Ty} {s : String} {v : Value} :
    ty.convert (.string s) = .ok v ↔ ty.readText s = .ok v := by
  rw [convert_string]
  cases ty.readText s <;> constructor <;> intro h <;> cases h <;> rfl

theorem ty_of_convert {ty : Ty} {v w : Value} (hty : ty.isIndeterminate = false)
    (hv : v ≠ .null) (h : ty.convert v = .ok w) : w.ty = ty := by
  cases v with
  | null => exact absurd rfl hv
  | string s => exact ty_of_readText hty (convert_string_eq_ok_iff.mp h)
  | bool b => cases ty <;> cases h <;> first | rfl | simp [isIndeterminate] at hty
  | i32 n => cases ty <;> cases h <;> first | rfl | simp [isIndeterminate] at hty
  | i64 n =>
      cases ty <;> simp only [convert] at h <;> (try split at h) <;> cases h <;>
        first | rfl | simp [isIndeterminate] at hty
  | f64 x =>
      cases ty <;> simp only [convert] at h <;> (try split at h) <;> cases h <;>
        first | rfl | simp [isIndeterminate] at hty

theorem isNull_of_convert {ty : Ty} {v w : Value} (h : ty.convert v = .ok w) :
    w.isNull = v.isNull := by
  by_cases hv : v = .null
  · subst hv
    rw [convert_null, Except.ok.injEq] at h
    rw [← h]
  · cases hty : ty.isIndeterminate with
    | true =>
        rw [convert_of_isIndeterminate hty, Except.ok.injEq] at h
        rw [h]
    | false =>
        have hw : w ≠ .null := by
          intro hnull
          have : ty = .null := by rw [← ty_of_convert hty hv h, hnull, Value.ty]
          simp [this, isIndeterminate] at hty
        rw [Bool.eq_iff_iff, Value.isNull_iff, Value.isNull_iff]
        exact ⟨fun h => absurd h hw, fun h => absurd h hv⟩

theorem convert_typed {ty : Ty} {v w : Value} (hty : ty.isIndeterminate = false)
    (h : ty.convert v = .ok w) : w = .null ∨ w.ty = ty := by
  by_cases hv : v = .null
  · left
    subst hv
    rw [convert_null, Except.ok.injEq] at h
    exact h.symm
  · exact Or.inr (ty_of_convert hty hv h)

/-- What has been converted is not changed by converting it again. -/
theorem convert_convert {ty : Ty} {v w : Value} (h : ty.convert v = .ok w) :
    ty.convert w = .ok w := by
  cases hty : ty.isIndeterminate with
  | true => exact convert_of_isIndeterminate hty w
  | false =>
      rcases convert_typed hty h with rfl | hw
      · exact convert_null ty
      · exact convert_of_ty_eq hw

private theorem convert_string_error {ty : Ty} {s : String} {e : Error}
    (h : ty.convert (.string s) = .error e) :
    ∃ fault, ty.readText s = .error fault ∧
      e = (Error.of fault).context (Error.conversion (.string s) ty) false := by
  rw [convert_string] at h
  cases hread : ty.readText s with
  | ok v =>
      rw [hread] at h
      cases h
  | error fault =>
      rw [hread] at h
      cases h
      exact ⟨fault, rfl, rfl⟩

private theorem convert_number_error {ty : Ty} {v : Value} {e : Error}
    (hv : v.isNumeric = true) (h : ty.convert v = .error e) : e = Error.conversion v ty := by
  cases v with
  | null | bool | string => cases hv
  | i32 n => cases ty <;> cases h
  | i64 n | f64 x =>
      cases ty <;> simp only [convert] at h <;> (try split at h) <;> cases h <;> rfl

/-- A conversion that fails: that it does, and of a text also what its reader reports. -/
theorem convert_error {ty : Ty} {v : Value} {e : Error} (h : ty.convert v = .error e) :
    e = Error.conversion v ty ∨ ∃ s fault, v = .string s ∧ ty.readText s = .error fault ∧
      e = (Error.of fault).context (Error.conversion v ty) false := by
  cases v with
  | null =>
      rw [convert_null] at h
      cases h
  | bool b => cases ty <;> cases h
  | i32 n | i64 n | f64 x => exact Or.inl (convert_number_error rfl h)
  | string s =>
      obtain ⟨fault, hread, he⟩ := convert_string_error h
      exact Or.inr ⟨s, fault, rfl, hread, he⟩

private theorem message_conversion (v : Value) (ty : Ty) :
    (Error.conversion v ty).message = "cannot convert " ++ v.ty.name ++ " to " ++ ty.name :=
  Error.message_of_causes_nil rfl

theorem message_of_convert_error {ty : Ty} {v : Value} {e : Error}
    (h : ty.convert v = .error e) :
    ∃ cause, e.message = "cannot convert " ++ v.ty.name ++ " to " ++ ty.name ++ cause ∧
      (cause = "" ∨ ∃ s fault, v = .string s ∧ ty.readText s = .error fault ∧
        cause = ": " ++ fault.message) := by
  rcases convert_error h with rfl | ⟨s, fault, hv, hread, rfl⟩
  · exact ⟨"", by rw [message_conversion, String.append_empty], Or.inl rfl⟩
  · refine ⟨": " ++ fault.message, ?_, Or.inr ⟨s, fault, hv, hread, rfl⟩⟩
    rw [Error.message_context_of_causes_nil _ rfl, message_conversion,
      Error.message_of_causes_nil (c := Error.of fault) rfl]
    exact String.append_assoc

theorem isConversion_of_convert_error {ty : Ty} {v : Value} {e : Error}
    (h : ty.convert v = .error e) : e.isConversion = true := by
  rcases convert_error h with rfl | ⟨s, fault, -, -, rfl⟩
  · rfl
  · rw [Error.context_of_own _ rfl rfl]
    rfl

/--
What a conversion makes of a value. Null stays null and an indeterminate type changes nothing; what
comes out is not changed by converting it again, and it has the target type if that is determinate
and the value is not null. A failure is a failure of conversion, and its text begins with the type
of the value and the name of the target; only the report on an unreadable text can follow.
-/
theorem convert_outcome (ty : Ty) (v : Value) :
    ty.convert .null = .ok .null ∧
      (ty.isIndeterminate = true ∨ v.ty = ty → ty.convert v = .ok v) ∧
      (∀ w, ty.convert v = .ok w → ty.convert w = .ok w ∧
        (ty.isIndeterminate = false → v ≠ .null → w.ty = ty)) ∧
      ∀ e, ty.convert v = .error e → e.isConversion = true ∧
        ∃ cause, e.message = "cannot convert " ++ v.ty.name ++ " to " ++ ty.name ++ cause ∧
          (cause = "" ∨ ∃ s fault, v = .string s ∧ ty.readText s = .error fault ∧
            cause = ": " ++ fault.message) := by
  refine ⟨convert_null ty, fun hsame => ?_, fun w hw => ⟨convert_convert hw, ?_⟩, fun e he => ?_⟩
  · rcases hsame with hty | hty
    · exact convert_of_isIndeterminate hty v
    · exact convert_of_ty_eq hty
  · exact fun hty hv => ty_of_convert hty hv hw
  · exact ⟨isConversion_of_convert_error he, message_of_convert_error he⟩

/-- A text with blanks around it is read, and one beyond the range is refused with a reason. -/
theorem convert_outcome_readText :
    Ty.i64.convert (.string " 12\n") = .ok (.i64 12) ∧ (Value.i64 12).ty = .i64 ∧
      Ty.i64.convert (.i64 12) = .ok (.i64 12) ∧
      Ty.f64.convert (.f64 Double.nan) = .ok (.f64 Double.nan) ∧
      Ty.unknown.convert (.bool true) = .ok (.bool true) ∧
      ∃ e, Ty.i32.convert (.string "2147483648") = .error e ∧ e.isConversion = true ∧
        ∃ cause, e.message = "cannot convert String to I32" ++ cause := by
  have hread : Ty.i64.convert (.string " 12\n") = .ok (.i64 12) := rfl
  obtain ⟨hagain, hty⟩ := (convert_outcome .i64 (.string " 12\n")).2.2.1 _ hread
  obtain ⟨hkind, cause, hmessage, -⟩ :=
    (convert_outcome .i32 (.string "2147483648")).2.2.2 _ rfl
  exact ⟨hread, hty rfl (by decide), hagain, (convert_outcome _ _).2.1 (Or.inr rfl),
    (convert_outcome _ _).2.1 (Or.inl rfl), _, rfl, hkind, cause, hmessage⟩

end Ty

end QueryExpr
