import QueryExpr.Proofs.Denotation
import QueryExpr.Proofs.IntegerText

/-!
# The integer nearest to a double

A double converts to an integer type just when it denotes a number and the type has room for the
integer nearest to it. The tests that decide this are made on doubles, one end of a range being
rounded itself, but what they say is exact, so that nothing is cut off or wrapped.
-/

namespace QueryExpr

/-- The integer nearest to the number; of two equally near ones, the one further from zero. -/
def Nearest (a : ℚ) (n : ℤ) : Prop :=
  |a - n| ≤ 1 / 2 ∧ (|a - n| = 1 / 2 → |a| < |(n : ℚ)|)

namespace Nearest

variable {a : ℚ} {m n : ℤ}

theorem neg (h : Nearest a n) : Nearest (-a) (-n) := by
  have hdistance : -a - ((-n : ℤ) : ℚ) = -(a - n) := by
    push_cast
    ring
  rw [Nearest, hdistance, abs_neg, abs_neg, Int.cast_neg, abs_neg]
  exact h

private theorem not_lt (hm : Nearest a m) (hn : Nearest a n) : ¬m < n := by
  intro hlt
  have hstep : (m : ℚ) + 1 ≤ n := by exact_mod_cast hlt
  obtain ⟨hma, hmtie⟩ := hm
  obtain ⟨hna, hntie⟩ := hn
  have hhalf : a = m + 1 / 2 := by
    linarith [(abs_le.mp hma).2, (abs_le.mp hna).1]
  have hnext : (n : ℚ) = m + 1 := by linarith [(abs_le.mp hna).1]
  have hfarm := hmtie (by rw [hhalf, add_sub_cancel_left]; norm_num)
  have hfarn := hntie (by rw [hhalf, hnext]; norm_num)
  -- the half between two integers is nearer to zero than one of them only
  rcases le_or_gt 0 m with hpos | hneg
  · have hpos' : (0 : ℚ) ≤ m := by exact_mod_cast hpos
    rw [abs_of_nonneg hpos'] at hfarm
    linarith [le_abs_self a]
  · have hneg' : (m : ℚ) + 1 ≤ 0 := by exact_mod_cast hneg
    rw [hnext, abs_of_nonpos hneg'] at hfarn
    linarith [neg_le_abs a]

theorem unique (hm : Nearest a m) (hn : Nearest a n) : m = n := by
  rcases lt_trichotomy m n with h | h | h
  · exact absurd h (not_lt hm hn)
  · exact h
  · exact absurd h (not_lt hn hm)

/-- A quotient is rounded by adding half and leaving out the remainder. -/
theorem of_div (num : Nat) {den : Nat} (hden : 0 < den) :
    Nearest (num / den) (((2 * num + den) / (2 * den) : ℕ) : ℤ) := by
  generalize hn : (2 * num + den) / (2 * den) = n
  have hpos : (0 : ℚ) < den := by exact_mod_cast hden
  have hle : n * (2 * den) ≤ 2 * num + den := by
    rw [← hn]
    exact Nat.div_mul_le_self _ _
  have hlt : 2 * num + den < (n + 1) * (2 * den) := by
    rw [← hn]
    exact Nat.lt_mul_of_div_lt (Nat.lt_succ_self _) (by omega)
  have hle' : (n * (2 * den) : ℚ) ≤ 2 * num + den := by exact_mod_cast hle
  have hlt' : (2 * num + den : ℚ) < (n + 1) * (2 * den) := by exact_mod_cast hlt
  have hnum : (num : ℚ) = num / den * den := (div_mul_cancel₀ _ hpos.ne').symm
  have hnonneg : (0 : ℚ) ≤ num / den := by positivity
  generalize (num / den : ℚ) = a at hnum hnonneg
  rw [hnum] at hle' hlt'
  have hlow : (n : ℚ) - 1 / 2 ≤ a :=
    le_of_mul_le_mul_right (by linarith) (mul_pos two_pos hpos)
  have hhigh : a < n + 1 / 2 :=
    lt_of_mul_lt_mul_right (by linarith) (mul_pos two_pos hpos).le
  have hdistance : |a - ((n : ℤ) : ℚ)| ≤ 1 / 2 := by
    rw [Int.cast_natCast, abs_le]
    exact ⟨by linarith, by linarith⟩
  refine ⟨hdistance, fun htie => ?_⟩
  have hless : a < n := by
    rw [Int.cast_natCast] at htie
    by_contra hnot
    rw [abs_of_nonneg (by linarith)] at htie
    linarith
  rwa [abs_of_nonneg hnonneg, Int.cast_natCast, abs_of_nonneg n.cast_nonneg]

end Nearest

namespace Double

variable {x y : Double} {a b : ℚ}

theorem below_iff (hx : x.value? = some a) (hy : y.value? = some b) :
    x.below y = true ↔ a < b := by
  rw [below, compare?_eq hx hy, beq_iff_eq, Option.some.injEq, compare_lt_iff_lt]

theorem atMost_iff (hx : x.value? = some a) (hy : y.value? = some b) :
    x.atMost y = true ↔ a ≤ b := by
  rw [atMost, Bool.or_eq_true, below_iff hx hy, numericEq, compare?_eq hx hy, beq_iff_eq,
    Option.some.injEq, compare_eq_iff_eq, le_iff_lt_or_eq]

/-- The absolute value of the nearest integer. -/
def roundedMagnitude (m : Nat) (q : Int) : Nat :=
  (2 * (m * power 2 q) + power 2 (-q)) / (2 * power 2 (-q))

theorem nearest_roundedMagnitude (m : Nat) (q : Int) :
    Nearest (m * 2 ^ q) (roundedMagnitude m q : ℕ) := by
  rw [mul_zpow_eq_div]
  exact Nearest.of_div _ (power_pos two_pos (-q))

theorem whole_roundedMagnitude {m : Nat} {q : Int} (hm : m < 2 ^ 53) (hq : q ≤ 971) :
    Whole (roundedMagnitude m q) := by
  rcases lt_or_ge q 0 with hneg | hpos
  · refine ⟨roundedMagnitude m q, 0, (Nat.mul_one _).symm, ?_, Nat.zero_le _⟩
    have hden : 2 ≤ power 2 (-q) := by
      rw [power, Nat.pow_eq]
      exact Nat.le_self_pow (by omega) 2
    rw [roundedMagnitude, power_of_nonpos hneg.le]
    generalize power 2 (-q) = den at hden
    rw [Nat.div_lt_iff_lt_mul (by omega)]
    omega
  · refine ⟨m, q.toNat, ?_, hm, by omega⟩
    have hden : power 2 (-q) = 1 := power_of_nonpos (by omega)
    have hnum : power 2 q = 2 ^ q.toNat := rfl
    rw [roundedMagnitude, hden, hnum]
    omega

theorem exponent_le_of_reading {negative : Bool} {m : Nat} {q : Int}
    (h : x.reading = .finite negative m q) : q ≤ 971 := by
  have hfinite : x.isFinite = true := isFinite_iff.mpr ⟨_, value?_of_reading h⟩
  have hmagnitude := (magnitude_of_reading h).2
  obtain ⟨-, -, hnormal⟩ := canonical_of_reading h
  rw [isFinite, decide_eq_true_iff] at hfinite
  simp only [infinityMagnitude, exponentWeight] at *
  omega

theorem value?_round (h : x.value? = some a) :
    ∃ n : ℤ, x.round.value? = some (n : ℚ) ∧ Nearest a n := by
  obtain ⟨negative, m, q, hreading, rfl⟩ := value?_eq_some_iff.mp h
  have hsign := (magnitude_of_reading hreading).1
  have hnearest := nearest_roundedMagnitude m q
  have hwhole := whole_roundedMagnitude (canonical_of_reading hreading).1
    (exponent_le_of_reading hreading)
  have hround : x.round = ofRatio negative (roundedMagnitude m q) 1 := by
    rw [round, nearestInt?, hreading, hsign]
    cases negative with
    | false => rfl
    | true => exact congrArg (ofRatio true · 1) (Int.natAbs_neg _)
  rw [hround, value?_ofRatio_one negative hwhole]
  cases negative with
  | false => exact ⟨_, rfl, hnearest⟩
  | true => exact ⟨_, by simp [withSign], hnearest.neg⟩

theorem round_of_value?_eq_none (h : x.value? = none) : x.round = x := by
  unfold value? at h
  unfold round nearestInt?
  cases hreading : x.reading with
  | finite negative m q => simp [hreading] at h
  | nan => rfl
  | infinite negative => rfl

theorem saturate_of_value? {lo hi n : ℤ} (h : x.value? = some (n : ℚ)) (hlo : lo ≤ n)
    (hhi : n ≤ hi) : x.saturate lo hi = n := by
  obtain ⟨negative, m, q, hreading, hn⟩ := value?_eq_some_iff.mp h
  have habs : (m * 2 ^ q : ℚ) = n.natAbs := by
    rw [Nat.cast_natAbs, Int.cast_abs, ← hn, abs_withSign negative (by positivity)]
  have hwhole : m * power 2 q / power 2 (-q) = n.natAbs := by
    rw [mul_zpow_eq_natCast_iff.mp habs, Nat.mul_div_cancel _ (power_pos two_pos (-q))]
  have hsigned : (if negative then -(n.natAbs : ℤ) else n.natAbs) = n := by
    rw [habs] at hn
    apply Int.cast_injective (α := ℚ)
    rw [← hn]
    cases negative with
    | false => rfl
    | true => exact Int.cast_neg _
  rw [saturate, hreading]
  dsimp only
  rw [hwhole, hsigned, min_eq_right hhi, max_eq_right hlo]

private theorem narrow_eq_some_iff {α : Type} {ofInt : ℤ → α} {toInt : α → ℤ} (lo hi : ℤ)
    (hto : ∀ i, lo ≤ i → i ≤ hi → toInt (ofInt i) = i) (hof : ∀ c, ofInt (toInt c) = c)
    (hrange : ∀ c, lo ≤ toInt c ∧ toInt c ≤ hi) {refuses : Bool}
    (hnone : x.round.isFinite = false → refuses = true)
    (hsome : ∀ n : ℤ, x.round.value? = some (n : ℚ) → (refuses = true ↔ n < lo ∨ hi < n)) {c : α} :
    (if refuses then none else some (ofInt (x.round.saturate lo hi))) = some c ↔
      ∃ a, x.value? = some a ∧ Nearest a (toInt c) := by
  cases hx : x.value? with
  | none =>
      have hinfinite : x.round.isFinite = false := by
        rw [round_of_value?_eq_none hx, Bool.eq_false_iff, Ne, isFinite_iff, hx]
        simp
      rw [if_pos (hnone hinfinite)]
      simp
  | some a =>
      obtain ⟨n, hn, hnearest⟩ := value?_round hx
      have hrefuses := hsome n hn
      split
      · rename_i h
        refine iff_of_false (by simp) ?_
        rintro ⟨b, hb, hc⟩
        cases hb
        have hsame := hnearest.unique hc
        have hfits := hrange c
        rcases hrefuses.mp h with h | h <;> omega
      · rename_i h
        rw [hrefuses, not_or, not_lt, not_lt] at h
        rw [saturate_of_value? hn h.1 h.2, Option.some.injEq]
        constructor
        · rintro rfl
          exact ⟨a, rfl, (hto n h.1 h.2).symm ▸ hnearest⟩
        · rintro ⟨b, hb, hc⟩
          cases hb
          rw [hnearest.unique hc, hof]

private theorem value?_ofInt_minInt32 :
    (ofInt Int32.minValue.toInt).value? = some (Int32.minValue.toInt : ℚ) :=
  value?_ofInt ⟨1, 31, by decide, by decide, by decide⟩

private theorem value?_ofInt_maxInt32 :
    (ofInt Int32.maxValue.toInt).value? = some (Int32.maxValue.toInt : ℚ) :=
  value?_ofInt ⟨2 ^ 31 - 1, 0, by decide, by decide, by decide⟩

private theorem value?_ofInt_minInt64 :
    (ofInt Int64.minValue.toInt).value? = some (Int64.minValue.toInt : ℚ) :=
  value?_ofInt ⟨1, 63, by decide, by decide, by decide⟩

/-- The greatest integer of 64 bits has too many digits: as a double it is the next one. -/
private theorem value?_ofInt_maxInt64 :
    (ofInt Int64.maxValue.toInt).value? = some ((Int64.maxValue.toInt + 1 : ℤ) : ℚ) := by
  have hround : ofInt Int64.maxValue.toInt = ofInt (Int64.maxValue.toInt + 1) := by decide +kernel
  rw [hround]
  exact value?_ofInt ⟨1, 63, by decide, by decide, by decide⟩

theorem toInt32?_eq_some_iff {n : Int32} :
    x.toInt32? = some n ↔ ∃ a, x.value? = some a ∧ Nearest a n.toInt := by
  refine narrow_eq_some_iff Int32.minValue.toInt Int32.maxValue.toInt
    (fun _ hlo hhi => Int32.toInt_ofInt_of_le hlo (Int.lt_add_one_of_le hhi))
    Int32.ofInt_toInt (fun n => ⟨n.le_toInt, Int.le_of_lt_add_one n.toInt_lt⟩) ?_ ?_
  · intro h
    rw [h]
    rfl
  · intro i hi
    have hlo := below_iff hi value?_ofInt_minInt32
    have hhi := below_iff value?_ofInt_maxInt32 hi
    rw [isFinite_iff.mpr ⟨_, hi⟩, Bool.not_true, Bool.false_or, Bool.or_eq_true, hlo, hhi,
      Int.cast_lt, Int.cast_lt]

theorem toInt64?_eq_some_iff {n : Int64} :
    x.toInt64? = some n ↔ ∃ a, x.value? = some a ∧ Nearest a n.toInt := by
  refine narrow_eq_some_iff Int64.minValue.toInt Int64.maxValue.toInt
    (fun _ hlo hhi => Int64.toInt_ofInt_of_le hlo (Int.lt_add_one_of_le hhi))
    Int64.ofInt_toInt (fun n => ⟨n.le_toInt, Int.le_of_lt_add_one n.toInt_lt⟩) ?_ ?_
  · intro h
    rw [h]
    rfl
  · intro i hi
    have hlo := below_iff hi value?_ofInt_minInt64
    have hhi := atMost_iff value?_ofInt_maxInt64 hi
    rw [isFinite_iff.mpr ⟨_, hi⟩, Bool.not_true, Bool.false_or, Bool.or_eq_true, hlo, hhi,
      Int.cast_lt, Int.cast_le, Int.add_one_le_iff]

end Double

namespace Ty

variable {ty : Ty} {x : Double}

/-- What finding the nearest integer makes of a conversion, whatever the width. -/
private theorem convert_double_of_narrow {α : Type} {narrow : Option α} {toInt : α → ℤ}
    (make : α → Value)
    (hnarrow : ∀ c, narrow = some c ↔ ∃ a, x.value? = some a ∧ Nearest a (toInt c))
    (hmake : ∀ c, (make c).integer? = some (toInt c))
    (hvalues : ∀ v : Value, v.ty = ty ↔ ∃ c, make c = v)
    (hconvert : ty.convert (.f64 x) =
      (narrow.map make).elim (.error (Error.conversion (.f64 x) ty)) .ok) :
    (∀ v, ty.convert (.f64 x) = .ok v ↔ v.ty = ty ∧
        ∃ a n, x.value? = some a ∧ Nearest a n ∧ ty.Holds n ∧ v.integer? = some n) ∧
      ∀ e, ty.convert (.f64 x) = .error e ↔ e = Error.conversion (.f64 x) ty ∧
        ¬∃ a n, x.value? = some a ∧ Nearest a n ∧ ty.Holds n := by
  have hfound {c : α} (h : narrow = some c) :
      ∃ a n, x.value? = some a ∧ Nearest a n ∧ ty.Holds n ∧ (make c).integer? = some n := by
    obtain ⟨a, ha, hn⟩ := (hnarrow c).mp h
    exact ⟨a, toInt c, ha, hn, holds_iff.mpr ⟨make c, (hvalues _).mpr ⟨c, rfl⟩, hmake c⟩, hmake c⟩
  have hfind {a : ℚ} {n : ℤ} {c : α} (ha : x.value? = some a) (hn : Nearest a n)
      (hc : (make c).integer? = some n) : narrow = some c := by
    rw [hmake, Option.some.injEq] at hc
    exact (hnarrow c).mpr ⟨a, ha, hc ▸ hn⟩
  rw [hconvert]
  refine ⟨fun v => ⟨fun h => ?_, ?_⟩, fun e => ⟨fun h => ?_, ?_⟩⟩
  · cases hc : narrow with
    | none => simp [hc] at h
    | some c =>
        rw [hc] at h
        cases h
        exact ⟨(hvalues _).mpr ⟨c, rfl⟩, hfound hc⟩
  · rintro ⟨hv, a, n, ha, hn, -, hvn⟩
    obtain ⟨c, rfl⟩ := (hvalues v).mp hv
    rw [hfind ha hn hvn]
    rfl
  · cases hc : narrow with
    | some c => simp [hc] at h
    | none =>
        rw [hc] at h
        cases h
        refine ⟨rfl, ?_⟩
        rintro ⟨a, n, ha, hn, hholds⟩
        obtain ⟨v, hv, hvn⟩ := holds_iff.mp hholds
        obtain ⟨c, rfl⟩ := (hvalues v).mp hv
        rw [hfind ha hn hvn] at hc
        cases hc
  · rintro ⟨rfl, hnone⟩
    cases hc : narrow with
    | none => rfl
    | some c =>
        obtain ⟨a, n, ha, hn, hholds, -⟩ := hfound hc
        exact absurd ⟨a, n, ha, hn, hholds⟩ hnone

/--
Converting a double to an integer type neither cuts off nor wraps. Each finite double, read as the
rational number that it denotes, has one nearest integer, a half going away from zero. The double
converts just when it is finite and the type has room for that integer, which is then the result;
any other double is a failure of conversion.
-/
theorem double_to_integer_exact (hty : ty = .i32 ∨ ty = .i64) (x : Double) :
    (x.isFinite = true ↔ ∃ a, x.value? = some a) ∧
      (∀ a, x.value? = some a → ∃! n, Nearest a n) ∧
      (∀ v, ty.convert (.f64 x) = .ok v ↔ v.ty = ty ∧
        ∃ a n, x.value? = some a ∧ Nearest a n ∧ ty.Holds n ∧ v.integer? = some n) ∧
      ∀ e, ty.convert (.f64 x) = .error e ↔ e = Error.conversion (.f64 x) ty ∧
        ¬∃ a n, x.value? = some a ∧ Nearest a n ∧ ty.Holds n := by
  refine ⟨Double.isFinite_iff, fun a ha => ?_, ?_⟩
  · obtain ⟨n, -, hn⟩ := Double.value?_round ha
    exact ⟨n, hn, fun _ hm => hm.unique hn⟩
  · rcases hty with rfl | rfl
    · apply convert_double_of_narrow .i32 (fun _ => Double.toInt32?_eq_some_iff) fun _ => rfl
      · intro v
        cases v <;> simp [Value.ty]
      · simp only [convert]
        cases x.toInt32? <;> rfl
    · apply convert_double_of_narrow .i64 (fun _ => Double.toInt64?_eq_some_iff) fun _ => rfl
      · intro v
        cases v <;> simp [Value.ty]
      · simp only [convert]
        cases x.toInt64? <;> rfl

/-- A negative half, a half beyond the narrow range, and both ends of the wide one. -/
theorem double_to_integer_exact_ends :
    Ty.i32.convert (.f64 ⟨0xC004000000000000⟩) = .ok (.i32 (-3)) ∧
      (∃ a, (⟨0xC004000000000000⟩ : Double).value? = some a ∧ Nearest a (-3)) ∧
      (∃ e, Ty.i32.convert (.f64 ⟨0x41DFFFFFFFE00000⟩) = .error e) ∧
      (¬∃ a n, (⟨0x41DFFFFFFFE00000⟩ : Double).value? = some a ∧ Nearest a n ∧ Ty.i32.Holds n) ∧
      Ty.i64.convert (.f64 ⟨0xC3E0000000000000⟩) = .ok (.i64 Int64.minValue) ∧
      ∃ e, Ty.i64.convert (.f64 ⟨0x43E0000000000000⟩) = .error e ∧
        ¬∃ a n, (⟨0x43E0000000000000⟩ : Double).value? = some a ∧ Nearest a n ∧ Ty.i64.Holds n := by
  have hhalf : Ty.i32.convert (.f64 ⟨0xC004000000000000⟩) = .ok (.i32 (-3)) := by decide +kernel
  have hbeyond : Ty.i32.convert (.f64 ⟨0x41DFFFFFFFE00000⟩) =
      .error (Error.conversion (.f64 ⟨0x41DFFFFFFFE00000⟩) .i32) := by decide +kernel
  have hleast : Ty.i64.convert (.f64 ⟨0xC3E0000000000000⟩) = .ok (.i64 Int64.minValue) := by
    decide +kernel
  have hnext : Ty.i64.convert (.f64 ⟨0x43E0000000000000⟩) =
      .error (Error.conversion (.f64 ⟨0x43E0000000000000⟩) .i64) := by decide +kernel
  obtain ⟨-, a, n, ha, hn, -, hvn⟩ :=
    ((double_to_integer_exact (Or.inl rfl) ⟨0xC004000000000000⟩).2.2.1 _).mp hhalf
  obtain rfl : -3 = n := Option.some.inj hvn
  exact ⟨hhalf, ⟨a, ha, hn⟩, ⟨_, hbeyond⟩,
    (((double_to_integer_exact (Or.inl rfl) _).2.2.2 _).mp hbeyond).2, hleast, _, hnext,
    (((double_to_integer_exact (Or.inr rfl) _).2.2.2 _).mp hnext).2⟩

end Ty

end QueryExpr
