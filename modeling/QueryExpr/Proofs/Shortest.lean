import Mathlib.Data.List.DropRight
import Mathlib.Tactic.FieldSimp
import QueryExpr.Proofs.Rounding

/-!
# The value of a shortest decimal

The decimal found for a double is a rational that rounds to the double, whether it comes from one of
the grids or from the exact expansion.
-/

namespace QueryExpr

namespace Double

theorem zpow_mul_power {base : Nat} (hbase : base ≠ 0) (exponent : Int) :
    (base : ℚ) ^ exponent * power base (-exponent) = power base exponent := by
  have hne : (base : ℚ) ≠ 0 := by exact_mod_cast hbase
  simp only [power, Nat.pow_eq, Nat.cast_pow]
  rw [← zpow_natCast, ← zpow_natCast, ← zpow_add₀ hne]
  congr 1
  omega

theorem power_pos {base : Nat} (hbase : 0 < base) (exponent : Int) : 0 < power base exponent :=
  Nat.pow_pos hbase

end Double

namespace Decimal

open Double (exponentWeight power zpow_mul_power power_pos RoundsTo lowerEnd upperEnd)

/-- The number a decimal denotes. -/
def value (d : Decimal) : ℚ := Nat.ofDigitChars 10 d.digits 0 * 10 ^ (d.scale - d.digits.length)

theorem isDigit_of_mem_ofGrid {point : Nat} {exponent : Int} {c : Char}
    (h : c ∈ (ofGrid point exponent).digits) : c.isDigit = true := by
  have hmem : c ∈ Nat.toDigits 10 point :=
    (List.rdropWhile_prefix (· == '0') _).subset h
  exact Nat.isDigit_of_mem_toDigits (by decide) (by decide) hmem

theorem value_ofGrid (point : Nat) (exponent : Int) :
    (ofGrid point exponent).value = point * 10 ^ exponent := by
  generalize hdigits : Nat.toDigits 10 point = digits
  have hpoint : Nat.ofDigitChars 10 digits 0 = point := by
    rw [← hdigits, Nat.ofDigitChars_ten_toDigits]
  have hzeros : digits.rtakeWhile (· == '0') =
      List.replicate (digits.rtakeWhile (· == '0')).length '0' := by
    apply List.eq_replicate_of_mem
    intro c hc
    simpa using List.mem_rtakeWhile_imp hc
  have hsplit : digits = digits.rdropWhile (· == '0') ++
      List.replicate (digits.rtakeWhile (· == '0')).length '0' := by
    rw [← hzeros, List.rdropWhile_append_rtakeWhile]
  have hgrid : ofGrid point exponent =
      ⟨digits.rdropWhile (· == '0'), digits.length + exponent⟩ := by
    rw [← hdigits]
    rfl
  rw [hgrid, value]
  generalize digits.rdropWhile (· == '0') = kept at hsplit ⊢
  generalize (digits.rtakeWhile (· == '0')).length = dropped at hsplit
  rw [hsplit, Nat.ofDigitChars_append, Nat.ofDigitChars_replicate_zero] at hpoint
  rw [hsplit, ← hpoint]
  have hexponent : ((kept ++ List.replicate dropped '0').length : Int) + exponent -
      (kept.length : Int) = dropped + exponent := by
    rw [List.length_append, List.length_replicate]
    push_cast
    ring
  simp only [hexponent]
  rw [zpow_add₀ (by norm_num), zpow_natCast]
  push_cast
  ring

/-- Lengths in quarters of `2 ^ q` are lengths, up to the common denominator. -/
private theorem quarters_eq (q exponent : Int) (a : ℚ) :
    a * (power 2 (q - 2) * power 10 (-exponent) : ℕ) =
      a * 2 ^ (q - 2) * (power 2 (2 - q) * power 10 (-exponent) : ℕ) := by
  have htwo := zpow_mul_power two_ne_zero (q - 2)
  rw [neg_sub] at htwo
  push_cast at htwo ⊢
  rw [← htwo]
  ring

private theorem steps_eq (q exponent : Int) (point : ℚ) :
    point * (power 2 (2 - q) * power 10 exponent : ℕ) =
      point * 10 ^ exponent * (power 2 (2 - q) * power 10 (-exponent) : ℕ) := by
  have hten := zpow_mul_power (by decide : 10 ≠ 0) exponent
  push_cast at hten ⊢
  rw [← hten]
  ring

private theorem denominator_pos (q exponent : Int) :
    (0 : ℚ) < (power 2 (2 - q) * power 10 (-exponent) : ℕ) := by
  have := Nat.mul_pos (power_pos two_pos (2 - q)) (power_pos (by decide : 0 < 10) (-exponent))
  exact_mod_cast this

private theorem quarters_le_steps {q exponent : Int} {a point : Nat} :
    a * (power 2 (q - 2) * power 10 (-exponent)) ≤ point * (power 2 (2 - q) * power 10 exponent) ↔
      (a : ℚ) * 2 ^ (q - 2) ≤ point * 10 ^ exponent := by
  rw [← Nat.cast_le (α := ℚ), Nat.cast_mul a, Nat.cast_mul point, quarters_eq,
    steps_eq q exponent point]
  exact mul_le_mul_iff_left₀ (denominator_pos q exponent)

private theorem steps_le_quarters {q exponent : Int} {a point : Nat} :
    point * (power 2 (2 - q) * power 10 exponent) ≤ a * (power 2 (q - 2) * power 10 (-exponent)) ↔
      (point : ℚ) * 10 ^ exponent ≤ a * 2 ^ (q - 2) := by
  rw [← Nat.cast_le (α := ℚ), Nat.cast_mul point, Nat.cast_mul a, quarters_eq,
    steps_eq q exponent point]
  exact mul_le_mul_iff_left₀ (denominator_pos q exponent)

private theorem lowerEnd_eq {m : Nat} (hm : 0 < m) (q : Int) :
    ((if m = exponentWeight ∧ q ≠ -1074 then 4 * m - 1 else 4 * m - 2 : ℕ) : ℚ) =
      lowerEnd m q := by
  unfold lowerEnd
  split
  · rw [Nat.cast_sub (by omega)]
    push_cast
    ring
  · rw [Nat.cast_sub (by omega)]
    push_cast
    ring

/-- The test that the search makes of a grid point. -/
def roundsBack (m : Nat) (q exponent : Int) (point : Nat) : Bool :=
  let quarter := power 2 (q - 2) * power 10 (-exponent)
  let step := power 2 (2 - q) * power 10 exponent
  let low := (if m = exponentWeight ∧ q ≠ -1074 then 4 * m - 1 else 4 * m - 2) * quarter
  let high := (4 * m + 2) * quarter
  if m % 2 = 0 then decide (low ≤ point * step ∧ point * step ≤ high)
  else decide (low < point * step ∧ point * step < high)

/-- Of two neighbours the one that passes the test; of two that do, the nearer one. -/
private def pick (below nearer : Nat) : Bool → Bool → Option Nat
  | false, false => none
  | true, false => some below
  | false, true => some (below + 1)
  | true, true => some nearer

theorem roundsBack_of_onGrid {tie : Tie} {m point : Nat} {q exponent : Int}
    (h : onGrid tie m q exponent = some point) : roundsBack m q exponent point = true := by
  have hpick : ∀ below nearer : Nat, nearer = below ∨ nearer = below + 1 →
      pick below nearer (roundsBack m q exponent below) (roundsBack m q exponent (below + 1)) =
        some point → roundsBack m q exponent point = true := by
    intro below nearer hnearer hmatch
    cases hbelow : roundsBack m q exponent below <;>
      cases habove : roundsBack m q exponent (below + 1) <;> rw [hbelow, habove] at hmatch <;>
      cases hmatch
    · exact habove
    · exact hbelow
    · rcases hnearer with rfl | rfl
      · exact hbelow
      · exact habove
  refine hpick _ _ ?_ h
  split
  · exact Or.inl rfl
  · exact Or.inr rfl
  · split
    · exact Or.inl rfl
    · exact Or.inr rfl

theorem onGrid_roundsTo {tie : Tie} {m point : Nat} {q exponent : Int} (hm : 0 < m)
    (h : onGrid tie m q exponent = some point) : RoundsTo m q (point * 10 ^ exponent) := by
  have hback := roundsBack_of_onGrid h
  have hupper : ((4 * m + 2 : ℕ) : ℚ) = upperEnd m := by
    rw [upperEnd]
    push_cast
    rfl
  unfold roundsBack at hback
  unfold RoundsTo
  rw [← lowerEnd_eq hm, ← hupper]
  dsimp only at hback
  split at hback
  · rename_i heven
    rw [decide_eq_true_eq] at hback
    rw [if_pos heven]
    exact ⟨quarters_le_steps.mp hback.1, steps_le_quarters.mp hback.2⟩
  · rename_i hodd
    rw [decide_eq_true_eq] at hback
    rw [if_neg hodd]
    exact ⟨lt_of_not_ge fun hle => hback.1.not_ge (steps_le_quarters.mpr hle),
      lt_of_not_ge fun hle => hback.2.not_ge (quarters_le_steps.mpr hle)⟩

theorem value_exact (m : Nat) (q : Int) : (exact m q).value = m * 2 ^ q := by
  rw [exact, value_ofGrid]
  rcases le_total 0 q with hq | hq
  · obtain ⟨n, rfl⟩ := Int.eq_ofNat_of_zero_le hq
    simp [power]
  · obtain ⟨n, hn⟩ := Int.eq_ofNat_of_zero_le (neg_nonneg.mpr hq)
    obtain rfl : q = -(n : Int) := by omega
    have hten : (10 : ℚ) ^ n = 2 ^ n * 5 ^ n := by
      rw [← mul_pow]
      norm_num
    simp [power, hten]
    field_simp

theorem shortest_cases (tie : Tie) (m : Nat) (q : Int) :
    shortest tie m q = exact m q ∨ ∃ point exponent,
      onGrid tie m q exponent = some point ∧ shortest tie m q = ofGrid point exponent := by
  let scale := decimalScale (m * power 2 q) (power 2 (-q))
  let search (n : Nat) : Option Decimal :=
    (onGrid tie m q (scale - 1 - n)).map (ofGrid · (scale - 1 - n))
  have hshortest : shortest tie m q = ((List.range 17).findSome? search).getD (exact m q) := rfl
  cases hfound : (List.range 17).findSome? search with
  | none => exact Or.inl (by rw [hshortest, hfound, Option.getD_none])
  | some d =>
      obtain ⟨n, -, hn⟩ := List.exists_of_findSome?_eq_some hfound
      obtain ⟨point, hpoint, rfl⟩ := Option.map_eq_some_iff.mp hn
      exact Or.inr ⟨point, _, hpoint, by rw [hshortest, hfound, Option.getD_some]⟩

/-- The shortest decimal of a number rounds to the number. -/
theorem shortest_roundsTo {tie : Tie} {m : Nat} (hm : 0 < m) (q : Int) :
    RoundsTo m q (shortest tie m q).value := by
  rcases shortest_cases tie m q with h | ⟨point, exponent, hpoint, h⟩
  · rw [h, value_exact]
    exact Double.roundsTo_self m q
  · rw [h, value_ofGrid]
    exact onGrid_roundsTo hm hpoint

theorem isDigit_of_mem_shortest {tie : Tie} {m : Nat} {q : Int} {c : Char}
    (h : c ∈ (shortest tie m q).digits) : c.isDigit = true := by
  rcases shortest_cases tie m q with hshort | ⟨point, exponent, -, hshort⟩ <;> rw [hshort] at h <;>
    exact isDigit_of_mem_ofGrid h

theorem shortest_ne_nil {tie : Tie} {m : Nat} (hm : 0 < m) (q : Int) :
    (shortest tie m q).digits ≠ [] := by
  intro hnil
  have hvalue : (shortest tie m q).value = 0 := by
    rw [value, hnil]
    simp
  exact absurd hvalue ((shortest_roundsTo hm q).pos hm).ne'

end Decimal

end QueryExpr
