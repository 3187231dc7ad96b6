import Mathlib.Algebra.Order.Field.Power
import Mathlib.Data.Rat.Cast.Order
import Mathlib.Tactic.Linarith
import Mathlib.Tactic.Positivity
import Mathlib.Tactic.Ring
import QueryExpr.Double.Shortest

/-!
# Rounding intervals

The rationals that round to a double lie in an interval around it, and the intervals of two doubles
have no point in common. The shortest decimal of a double lies in its interval, so it belongs to no
other one.
-/

namespace QueryExpr

namespace Double

/-- Significand and exponent of a finite number: 53 bits, or the least exponent. -/
def Canonical (m : Nat) (q : Int) : Prop :=
  m < 2 ^ 53 ∧ -1074 ≤ q ∧ (2 ^ 52 ≤ m ∨ q = -1074)

/-- The lower end of the interval around `m * 2 ^ q`, in quarters of `2 ^ q`. -/
def lowerEnd (m : Nat) (q : Int) : ℚ :=
  if m = exponentWeight ∧ q ≠ -1074 then 4 * m - 1 else 4 * m - 2

def upperEnd (m : Nat) : ℚ := 4 * m + 2

/-- The rational is nearest to `m * 2 ^ q`; a tie goes to the even significand. -/
def RoundsTo (m : Nat) (q : Int) (r : ℚ) : Prop :=
  if m % 2 = 0 then lowerEnd m q * 2 ^ (q - 2) ≤ r ∧ r ≤ upperEnd m * 2 ^ (q - 2)
  else lowerEnd m q * 2 ^ (q - 2) < r ∧ r < upperEnd m * 2 ^ (q - 2)

theorem RoundsTo.le {m : Nat} {q : Int} {r : ℚ} (h : RoundsTo m q r) :
    lowerEnd m q * 2 ^ (q - 2) ≤ r ∧ r ≤ upperEnd m * 2 ^ (q - 2) := by
  unfold RoundsTo at h
  split at h
  · exact h
  · exact ⟨h.1.le, h.2.le⟩

theorem RoundsTo.lt_of_odd {m : Nat} {q : Int} {r : ℚ} (h : RoundsTo m q r) (hm : m % 2 = 1) :
    lowerEnd m q * 2 ^ (q - 2) < r ∧ r < upperEnd m * 2 ^ (q - 2) := by
  unfold RoundsTo at h
  rwa [if_neg (by omega)] at h

theorem le_lowerEnd (m : Nat) (q : Int) : (4 * m - 2 : ℚ) ≤ lowerEnd m q := by
  unfold lowerEnd
  split <;> linarith

theorem lowerEnd_le (m : Nat) (q : Int) : lowerEnd m q ≤ (4 * m - 1 : ℚ) := by
  unfold lowerEnd
  split <;> linarith

private theorem quarter_pos (q : Int) : (0 : ℚ) < 2 ^ (q - 2) := zpow_pos two_pos _

theorem roundsTo_self (m : Nat) (q : Int) : RoundsTo m q (m * 2 ^ q) := by
  have hquarters : (m * 2 ^ q : ℚ) = (4 * m : ℚ) * 2 ^ (q - 2) := by
    rw [zpow_sub₀ two_ne_zero]
    ring
  have hlow : lowerEnd m q * 2 ^ (q - 2) < (4 * m : ℚ) * 2 ^ (q - 2) :=
    mul_lt_mul_of_pos_right (by linarith [lowerEnd_le m q]) (quarter_pos q)
  have hhigh : (4 * m : ℚ) * 2 ^ (q - 2) < upperEnd m * 2 ^ (q - 2) :=
    mul_lt_mul_of_pos_right (by unfold upperEnd; linarith) (quarter_pos q)
  rw [hquarters, RoundsTo]
  split
  · exact ⟨hlow.le, hhigh.le⟩
  · exact ⟨hlow, hhigh⟩

theorem RoundsTo.pos {m : Nat} {q : Int} {r : ℚ} (h : RoundsTo m q r) (hm : 0 < m) : 0 < r := by
  have hm' : (1 : ℚ) ≤ m := by exact_mod_cast hm
  have hlow : (0 : ℚ) < lowerEnd m q := by linarith [le_lowerEnd m q]
  exact (mul_pos hlow (quarter_pos q)).trans_le h.le.1

/-- On one grid, the interval of the next number begins where that of the number ends. -/
private theorem not_roundsTo_of_lt {m n : Nat} {q : Int} {r : ℚ} (hlt : m < n)
    (hm : RoundsTo m q r) : ¬ RoundsTo n q r := by
  intro hn
  have hmn : (m + 1 : ℚ) ≤ n := by exact_mod_cast hlt
  have hends : lowerEnd n q * 2 ^ (q - 2) ≤ upperEnd m * 2 ^ (q - 2) := hn.le.1.trans hm.le.2
  have hquarters : lowerEnd n q ≤ upperEnd m := le_of_mul_le_mul_right hends (quarter_pos q)
  have hnext : n = m + 1 := by
    have : (n : ℚ) ≤ m + 1 := by
      unfold upperEnd at hquarters
      linarith [le_lowerEnd n q]
    have : n ≤ m + 1 := by exact_mod_cast this
    omega
  have heq : upperEnd m ≤ lowerEnd n q := by
    unfold upperEnd
    linarith [le_lowerEnd n q]
  have hback := mul_le_mul_of_nonneg_right heq (quarter_pos q).le
  rcases Nat.mod_two_eq_zero_or_one m with heven | hodd
  · exact absurd (hm.le.2.trans hback) (not_le.mpr (hn.lt_of_odd (by omega)).1)
  · exact absurd (hback.trans hn.le.1) (not_le.mpr (hm.lt_of_odd hodd).2)

private theorem not_roundsTo_of_exponent_lt {m n : Nat} {p q : Int} {r : ℚ}
    (hcm : Canonical m p) (hcn : Canonical n q) (hlt : p < q) (hm : RoundsTo m p r) :
    ¬ RoundsTo n q r := by
  intro hn
  obtain ⟨hmlt, hp, -⟩ := hcm
  have hnle : 2 ^ 52 ≤ n := by
    rcases hcn.2.2 with h | h
    · exact h
    · omega
  have hlow : (2 ^ 54 - 1 : ℚ) ≤ lowerEnd n q := by
    unfold lowerEnd exponentWeight
    split
    · rename_i hweight
      rw [hweight.1]
      norm_num
    · rename_i hweight
      have : 2 ^ 52 + 1 ≤ n := by omega
      have : (2 ^ 52 + 1 : ℚ) ≤ n := by exact_mod_cast this
      linarith
  have hstep : (2 : ℚ) * 2 ^ (p - 2) ≤ 2 ^ (q - 2) := by
    rw [← zpow_one_add₀ two_ne_zero]
    exact zpow_le_zpow_right₀ one_le_two (by omega)
  have hends : (2 ^ 55 - 2 : ℚ) * 2 ^ (p - 2) ≤ r := by
    calc (2 ^ 55 - 2 : ℚ) * 2 ^ (p - 2) = (2 ^ 54 - 1) * (2 * 2 ^ (p - 2)) := by ring
      _ ≤ (2 ^ 54 - 1) * 2 ^ (q - 2) := mul_le_mul_of_nonneg_left hstep (by norm_num)
      _ ≤ lowerEnd n q * 2 ^ (q - 2) := mul_le_mul_of_nonneg_right hlow (quarter_pos q).le
      _ ≤ r := hn.le.1
  have hquarters : (2 ^ 55 - 2 : ℚ) ≤ upperEnd m :=
    le_of_mul_le_mul_right (hends.trans hm.le.2) (quarter_pos p)
  have hlast : m = 2 ^ 53 - 1 := by
    have : (2 ^ 53 - 1 : ℚ) ≤ m := by
      unfold upperEnd at hquarters
      linarith
    have : 2 ^ 53 - 1 ≤ m := by
      have : ((2 ^ 53 - 1 : ℕ) : ℚ) ≤ m := by
        norm_num at this ⊢
        exact this
      exact_mod_cast this
    omega
  -- the greatest significand is odd, so the common end does not belong to its interval
  have hopen := (hm.lt_of_odd (by omega)).2
  have hupper : upperEnd m = 2 ^ 55 - 2 := by
    rw [upperEnd, hlast]
    norm_num
  rw [hupper] at hopen
  exact absurd hends (not_le.mpr hopen)

/-- A rational rounds to one double only. -/
theorem RoundsTo.unique {m n : Nat} {p q : Int} {r : ℚ} (hcm : Canonical m p)
    (hcn : Canonical n q) (hm : RoundsTo m p r) (hn : RoundsTo n q r) : m = n ∧ p = q := by
  rcases lt_trichotomy p q with h | rfl | h
  · exact absurd hn (not_roundsTo_of_exponent_lt hcm hcn h hm)
  · rcases lt_trichotomy m n with h | rfl | h
    · exact absurd hn (not_roundsTo_of_lt h hm)
    · exact ⟨rfl, rfl⟩
    · exact absurd hm (not_roundsTo_of_lt h hn)
  · exact absurd hm (not_roundsTo_of_exponent_lt hcn hcm h hn)

end Double

end QueryExpr
