import QueryExpr.Double.Integer
import QueryExpr.Proofs.Literals

/-!
# The numbers that doubles denote

A finite double denotes a rational number, and the order of doubles is the order of these numbers.
An integer of at most 53 binary digits, but for zeros at its end, is a double itself: rounding it
changes nothing.
-/

namespace QueryExpr.Double

def withSign (negative : Bool) (a : ℚ) : ℚ := if negative then -a else a

theorem abs_withSign (negative : Bool) {a : ℚ} (h : 0 ≤ a) : |withSign negative a| = a := by
  cases negative <;> simp [withSign, abs_of_nonneg h]

/-- The rational number that the bits denote; infinity and NaN denote none. -/
def value? (x : Double) : Option ℚ :=
  match x.reading with
  | .finite negative m q => some (withSign negative (m * 2 ^ q))
  | _ => none

theorem value?_of_reading {x : Double} {negative : Bool} {m : Nat} {q : Int}
    (h : x.reading = .finite negative m q) :
    x.value? = some (withSign negative (m * 2 ^ q)) := by
  rw [value?, h]

theorem value?_eq_some_iff {x : Double} {a : ℚ} :
    x.value? = some a ↔ ∃ negative m q, x.reading = .finite negative m q ∧
      withSign negative (m * 2 ^ q) = a := by
  unfold value?
  cases x.reading <;> simp

theorem power_of_nonpos {base : Nat} {exponent : Int} (h : exponent ≤ 0) :
    power base exponent = 1 := by
  rw [power, Int.toNat_of_nonpos h, Nat.pow_eq, Nat.pow_zero]

private theorem cast_power_ne_zero (q : Int) : (power 2 q : ℚ) ≠ 0 := by
  exact_mod_cast (power_pos two_pos q).ne'

/-- The number as a fraction of integers, one of the two powers being one. -/
theorem mul_zpow_eq_div (m : Nat) (q : Int) :
    (m * 2 ^ q : ℚ) = (m * power 2 q : ℕ) / power 2 (-q) := by
  have hpower := zpow_mul_power two_ne_zero q
  rw [Nat.cast_ofNat] at hpower
  rw [eq_div_iff (cast_power_ne_zero _), mul_assoc, hpower, Nat.cast_mul]

theorem mul_zpow_eq_natCast_iff {m n : Nat} {q : Int} :
    (m * 2 ^ q : ℚ) = n ↔ m * power 2 q = n * power 2 (-q) := by
  rw [mul_zpow_eq_div, div_eq_iff (cast_power_ne_zero _)]
  norm_cast

theorem isFinite_iff {x : Double} : x.isFinite = true ↔ ∃ a, x.value? = some a := by
  have hmagnitude : x.magnitude < signWeight := Nat.mod_lt _ (by decide)
  have hbiased : x.isFinite = true ↔ x.magnitude / exponentWeight ≠ 2047 := by
    rw [isFinite, decide_eq_true_iff]
    simp only [infinityMagnitude, signWeight, exponentWeight] at *
    omega
  rw [hbiased]
  by_cases h : x.magnitude / exponentWeight = 2047
  · have hreading : x.reading = .nan ∨ ∃ negative, x.reading = .infinite negative := by
      unfold reading
      dsimp only
      rw [if_pos h]
      split
      · exact Or.inr ⟨_, rfl⟩
      · exact Or.inl rfl
    rcases hreading with hreading | ⟨negative, hreading⟩ <;> simp [value?, hreading, h]
  · have hreading : ∃ m q, x.reading = .finite x.isNegative m q := by
      unfold reading
      dsimp only
      rw [if_neg h]
      split <;> exact ⟨_, _, rfl⟩
    obtain ⟨m, q, hreading⟩ := hreading
    exact iff_of_true h ⟨_, value?_of_reading hreading⟩

section Order

variable {m n : Nat} {p q : Int}

/-- The place in the count from zero, which the bits below the sign hold. -/
def place (m : Nat) (q : Int) : Nat := (q + 1074).toNat * exponentWeight + m

private theorem lt_of_place_lt (hm : Canonical m p) (hn : Canonical n q)
    (h : place m p < place n q) : (m * 2 ^ p : ℚ) < n * 2 ^ q := by
  obtain ⟨hmlt, hp, hmnormal⟩ := hm
  obtain ⟨hnlt, hq, hnnormal⟩ := hn
  simp only [place, exponentWeight] at h
  rcases lt_trichotomy p q with hpq | rfl | hpq
  · have hnle : (2 ^ 52 : ℚ) ≤ n := by
      have : 2 ^ 52 ≤ n := by omega
      exact_mod_cast this
    have hm53 : (m : ℚ) < 2 ^ 53 := by exact_mod_cast hmlt
    have hstep : (2 : ℚ) * 2 ^ p ≤ 2 ^ q := by
      rw [← zpow_one_add₀ two_ne_zero]
      exact zpow_le_zpow_right₀ one_le_two (by omega)
    have hpos : (0 : ℚ) < 2 ^ p := zpow_pos two_pos p
    calc (m * 2 ^ p : ℚ) < 2 ^ 53 * 2 ^ p := mul_lt_mul_of_pos_right hm53 hpos
      _ = 2 ^ 52 * (2 * 2 ^ p) := by ring
      _ ≤ 2 ^ 52 * 2 ^ q := mul_le_mul_of_nonneg_left hstep (by norm_num)
      _ ≤ n * 2 ^ q := mul_le_mul_of_nonneg_right hnle (zpow_pos two_pos q).le
  · have hmn : (m : ℚ) < n := by
      have : m < n := by omega
      exact_mod_cast this
    exact mul_lt_mul_of_pos_right hmn (zpow_pos two_pos p)
  · omega

private theorem eq_of_place_eq (hm : Canonical m p) (hn : Canonical n q)
    (h : place m p = place n q) : m = n ∧ p = q := by
  obtain ⟨hmlt, hp, hmnormal⟩ := hm
  obtain ⟨hnlt, hq, hnnormal⟩ := hn
  simp only [place, exponentWeight] at h
  omega

/-- Numbers are ordered as their places are. -/
theorem place_lt_iff (hm : Canonical m p) (hn : Canonical n q) :
    place m p < place n q ↔ (m * 2 ^ p : ℚ) < n * 2 ^ q := by
  refine ⟨lt_of_place_lt hm hn, fun h => ?_⟩
  rcases lt_trichotomy (place m p) (place n q) with hlt | heq | hgt
  · exact hlt
  · obtain ⟨rfl, rfl⟩ := eq_of_place_eq hm hn heq
    exact absurd h (lt_irrefl _)
  · exact absurd h (lt_of_place_lt hn hm hgt).not_gt

theorem canonical_zero : Canonical 0 (-1074) := ⟨by decide, le_refl _, Or.inr rfl⟩

private theorem place_pos_iff (hm : Canonical m p) : 0 < place m p ↔ (0 : ℚ) < m * 2 ^ p := by
  have h := place_lt_iff canonical_zero hm
  rwa [Nat.cast_zero, zero_mul] at h

theorem rank_lt_iff {x y : Double} {a b : ℚ} (hx : x.value? = some a) (hy : y.value? = some b) :
    x.rank < y.rank ↔ a < b := by
  obtain ⟨negative, m, p, hreading, rfl⟩ := value?_eq_some_iff.mp hx
  obtain ⟨negative', n, q, hreading', rfl⟩ := value?_eq_some_iff.mp hy
  have hm := canonical_of_reading hreading
  have hn := canonical_of_reading hreading'
  obtain ⟨hsign, hmagnitude⟩ := magnitude_of_reading hreading
  obtain ⟨hsign', hmagnitude'⟩ := magnitude_of_reading hreading'
  have hplace : x.magnitude = place m p := hmagnitude
  have hplace' : y.magnitude = place n q := hmagnitude'
  rw [rank, rank, hsign, hsign', hplace, hplace']
  have hnonneg : (0 : ℚ) ≤ m * 2 ^ p := by positivity
  have hnonneg' : (0 : ℚ) ≤ n * 2 ^ q := by positivity
  have hlt := place_lt_iff hm hn
  have hgt := place_lt_iff hn hm
  have hpos := place_pos_iff hm
  have hpos' := place_pos_iff hn
  cases negative <;> cases negative' <;> simp only [withSign, Bool.false_eq_true, if_false, if_true]
  · rw [Int.ofNat_lt, hlt]
  · exact iff_of_false (by omega) (by linarith)
  · constructor
    · intro h
      have : 0 < place m p ∨ 0 < place n q := by omega
      rcases this with h | h
      · linarith [hpos.mp h]
      · linarith [hpos'.mp h]
    · intro h
      by_contra hnot
      have hzero : ¬0 < place m p ∧ ¬0 < place n q := by omega
      rw [hpos, hpos'] at hzero
      linarith [hzero.1, hzero.2]
  · rw [neg_lt_neg_iff, neg_lt_neg_iff, Int.ofNat_lt, hgt]

end Order

theorem compare?_eq {x y : Double} {a b : ℚ} (hx : x.value? = some a) (hy : y.value? = some b) :
    x.compare? y = some (compare a b) := by
  have hnan {z : Double} {c : ℚ} (hz : z.value? = some c) : z.isNaN = false := by
    have hfinite := isFinite_iff.mpr ⟨c, hz⟩
    rw [isFinite, decide_eq_true_iff] at hfinite
    exact decide_eq_false hfinite.not_gt
  rw [compare?, hnan hx, hnan hy, Bool.or_self, if_neg Bool.false_ne_true, Option.some.injEq]
  have hlt := rank_lt_iff hx hy
  have hgt := rank_lt_iff hy hx
  rw [compare_iff]
  cases horder : compare a b with
  | lt => exact hlt.mpr (compare_lt_iff_lt.mp horder)
  | gt => exact hgt.mpr (compare_gt_iff_gt.mp horder)
  | eq =>
      have heq := compare_eq_iff_eq.mp horder
      have hge : ¬x.rank < y.rank := fun h => (hlt.mp h).ne heq
      have hle : ¬y.rank < x.rank := fun h => (hgt.mp h).ne' heq
      exact le_antisymm (not_lt.mp hle) (not_lt.mp hge)

section Whole

theorem reading_ofMagnitude (negative : Bool) {m : Nat} {q : Int} (hm : Canonical m q)
    (hfinite : place m q < infinityMagnitude) :
    (ofMagnitude negative (place m q)).reading = .finite negative m q := by
  obtain ⟨hmlt, hq, hnormal⟩ := hm
  have hbits : (ofMagnitude negative (place m q)).bits.toNat =
      place m q + if negative then signWeight else 0 := by
    rw [ofMagnitude, UInt64.toNat_ofNat']
    apply Nat.mod_eq_of_lt
    simp only [infinityMagnitude, exponentWeight] at hfinite
    cases negative <;> simp [signWeight] <;> omega
  have hsign : (ofMagnitude negative (place m q)).isNegative = negative := by
    rw [isNegative, hbits]
    simp only [infinityMagnitude, exponentWeight] at hfinite
    cases negative <;> simp [signWeight]
    omega
  have hmagnitude : (ofMagnitude negative (place m q)).magnitude = place m q := by
    rw [magnitude, hbits]
    simp only [infinityMagnitude, exponentWeight] at hfinite
    cases negative <;> simp [signWeight] <;> omega
  have hquotient : place m q / exponentWeight ≠ 2047 := by
    simp only [place, infinityMagnitude, exponentWeight] at *
    omega
  unfold reading
  rw [hsign, hmagnitude]
  dsimp only
  rw [if_neg hquotient]
  split <;> simp only [place, exponentWeight, Reading.finite.injEq, true_and] at * <;> omega

theorem roundQuotient_mul (a : Nat) {d : Nat} (hd : 0 < d) : roundQuotient (a * d) d = a := by
  have hless : compare (2 * 0) d = .lt := compare_lt_iff_lt.mpr hd
  unfold roundQuotient
  rw [Nat.mul_div_cancel a hd, Nat.mul_mod_left, hless]

theorem binaryScale_one {n : Nat} (hn : n ≠ 0) : binaryScale n 1 = n.log2 := by
  have hlog : ((1 : Nat).log2 : Int) = 0 := by decide
  have hle : 1 * power 2 n.log2 ≤ n * power 2 (-n.log2) := by
    simpa [power] using Nat.log2_self_le hn
  rw [binaryScale, hlog, sub_zero]
  exact if_pos hle

/-- An integer of at most 53 binary digits, but for zeros at its end, and within the range. -/
def Whole (n : Nat) : Prop := ∃ m k, n = m * 2 ^ k ∧ m < 2 ^ 53 ∧ k ≤ 971

private theorem log2_lt {n m k : Nat} (hn : n ≠ 0) (hmk : n = m * 2 ^ k) (hm : m < 2 ^ 53) :
    n.log2 < 53 + k := by
  rw [Nat.log2_lt hn, hmk, Nat.pow_add]
  exact Nat.mul_lt_mul_of_pos_right hm (Nat.two_pow_pos k)

private theorem exists_significand {n : Nat} (hn : n ≠ 0) (h : Whole n) :
    ∃ s, n * power 2 (-((n.log2 : Int) - 52)) = s * power 2 ((n.log2 : Int) - 52) := by
  obtain ⟨m, k, hmk, hm, -⟩ := h
  rcases Nat.lt_or_ge 52 n.log2 with hlong | hshort
  · have hk : n.log2 - 52 ≤ k := by
      have := log2_lt hn hmk hm
      omega
    have hlow : power 2 (-((n.log2 : Int) - 52)) = 1 := power_of_nonpos (by omega)
    have hhigh : power 2 ((n.log2 : Int) - 52) = 2 ^ (n.log2 - 52) := by
      rw [power, Nat.pow_eq]
      congr 1
      omega
    refine ⟨m * 2 ^ (k - (n.log2 - 52)), ?_⟩
    rw [hlow, hhigh, Nat.mul_one, Nat.mul_assoc, Nat.pow_sub_mul_pow 2 hk]
    exact hmk
  · refine ⟨n * power 2 (-((n.log2 : Int) - 52)), ?_⟩
    have hone : power 2 ((n.log2 : Int) - 52) = 1 := power_of_nonpos (by omega)
    rw [hone, Nat.mul_one]

private theorem canonical_significand {n s : Nat} (hn : n ≠ 0)
    (hvalue : (n : ℚ) = s * 2 ^ ((n.log2 : Int) - 52)) : Canonical s ((n.log2 : Int) - 52) := by
  have hunit : (2 ^ n.log2 : ℚ) = 2 ^ 52 * 2 ^ ((n.log2 : Int) - 52) := by
    rw [← zpow_natCast, ← zpow_natCast, ← zpow_add₀ two_ne_zero]
    congr 1
    push_cast
    ring
  have hpos : (0 : ℚ) < 2 ^ ((n.log2 : Int) - 52) := zpow_pos two_pos _
  have hlow : (2 ^ n.log2 : ℚ) ≤ n := by exact_mod_cast Nat.log2_self_le hn
  have hhigh : (n : ℚ) < 2 * 2 ^ n.log2 := by
    have := Nat.lt_log2_self (n := n)
    rw [Nat.pow_succ'] at this
    exact_mod_cast this
  rw [hunit, hvalue] at hlow hhigh
  rw [← mul_assoc] at hhigh
  have hge : (2 ^ 52 : ℚ) ≤ s := le_of_mul_le_mul_right hlow hpos
  have hlt : (s : ℚ) < 2 * 2 ^ 52 := lt_of_mul_lt_mul_right hhigh hpos.le
  have hge' : 2 ^ 52 ≤ s := by exact_mod_cast hge
  have hlt' : s < 2 * 2 ^ 52 := by exact_mod_cast hlt
  exact ⟨by omega, by omega, Or.inl hge'⟩

/-- Such an integer is not changed by rounding. -/
theorem value?_ofRatio_one (negative : Bool) {n : Nat} (h : Whole n) :
    (ofRatio negative n 1).value? = some (withSign negative n) := by
  rcases eq_or_ne n 0 with rfl | hn
  · have hratio : ofRatio negative 0 1 = ofMagnitude negative (place 0 (-1074)) := by
      rw [ofRatio, if_pos rfl]
      rfl
    have hreading := reading_ofMagnitude negative canonical_zero (by decide)
    rw [hratio, value?_of_reading hreading, Nat.cast_zero, zero_mul]
  · obtain ⟨s, hs⟩ := exists_significand hn h
    obtain ⟨m, k, hmk, hm, hk⟩ := h
    have hlog := log2_lt hn hmk hm
    have hvalue := (mul_zpow_eq_natCast_iff.mpr hs.symm).symm
    have hcanonical := canonical_significand hn hvalue
    have hplace : place s ((n.log2 : Int) - 52) < infinityMagnitude := by
      have := hcanonical.1
      simp only [place, infinityMagnitude, exponentWeight]
      omega
    have hratio : ofRatio negative n 1 = ofMagnitude negative (place s ((n.log2 : Int) - 52)) := by
      have hexponent : max ((n.log2 : Int) - 52) (-1074) = (n.log2 : Int) - 52 := by omega
      rw [ofRatio, if_neg hn, binaryScale_one hn]
      dsimp only
      rw [hexponent, hs, Nat.one_mul, roundQuotient_mul s (power_pos two_pos _)]
      exact congrArg _ (Nat.min_eq_left hplace.le)
    rw [hratio, value?_of_reading (reading_ofMagnitude negative hcanonical hplace), hvalue]

theorem value?_ofInt {i : Int} (h : Whole i.natAbs) : (ofInt i).value? = some (i : ℚ) := by
  rw [ofInt, value?_ofRatio_one _ h, withSign, Option.some.injEq, Nat.cast_natAbs]
  split <;> rename_i hsign <;> rw [decide_eq_true_eq] at hsign
  · rw [abs_of_neg hsign, Int.cast_neg, neg_neg]
  · rw [abs_of_nonneg (not_lt.mp hsign)]

end Whole

end QueryExpr.Double
