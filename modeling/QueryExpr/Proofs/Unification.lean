import QueryExpr.Proofs.Subterms
import QueryExpr.Typing

/-!
# The type shared by several results

Unifying a list of types picks the one of highest rank. So results that all have one type, up to
nulls and to texts that never come out, share that type.
-/

namespace QueryExpr

namespace Ty

theorem rank_injective {a b : Ty} (h : a.rank = b.rank) : a = b := by
  cases a <;> cases b <;> first | rfl | simp [rank] at h

theorem rank_unify (a b : Ty) : (a.unify b).rank = max a.rank b.rank := by
  unfold unify
  split <;> omega

/-- The type several types are unified to, starting from nothing. -/
def unifyAll (ts : List Ty) : Ty := ts.foldl unify .unknown

private theorem rank_foldl_unify_le {ts : List Ty} {t : Ty} {n : Nat} (ht : t.rank ≤ n)
    (h : ∀ s ∈ ts, s.rank ≤ n) : (ts.foldl unify t).rank ≤ n := by
  induction ts generalizing t with
  | nil => exact ht
  | cons s ts ih =>
      apply ih
      · rw [rank_unify]
        exact Nat.max_le.mpr ⟨ht, h s (by simp)⟩
      · exact fun u hu => h u (by simp [hu])

private theorem le_rank_foldl_unify (ts : List Ty) (t : Ty) :
    t.rank ≤ (ts.foldl unify t).rank ∧ ∀ s ∈ ts, s.rank ≤ (ts.foldl unify t).rank := by
  induction ts generalizing t with
  | nil => simp
  | cons u ts ih =>
      have hu := (ih (t.unify u)).1
      rw [rank_unify] at hu
      rw [List.foldl_cons]
      refine ⟨by omega, ?_⟩
      intro s hs
      rcases List.mem_cons.mp hs with rfl | hs
      · omega
      · exact (ih (t.unify u)).2 s hs

theorem rank_unifyAll_le {ts : List Ty} {n : Nat} (h : ∀ t ∈ ts, t.rank ≤ n) :
    (unifyAll ts).rank ≤ n := rank_foldl_unify_le (Nat.zero_le n) h

theorem rank_le_unifyAll {ts : List Ty} {t : Ty} (h : t ∈ ts) : t.rank ≤ (unifyAll ts).rank :=
  (le_rank_foldl_unify ts .unknown).2 t h

theorem unifyAll_eq_of_mem {ts : List Ty} {t : Ty} (hmem : t ∈ ts)
    (h : ∀ s ∈ ts, s.rank ≤ t.rank) : unifyAll ts = t :=
  rank_injective (Nat.le_antisymm (rank_unifyAll_le h) (rank_le_unifyAll hmem))

/-- Nulls and texts beside values of one type do not change what is shared. -/
theorem orString_unifyAll {ts : List Ty} {t : Ty} (ht : t.isIndeterminate = false)
    (h : ∀ s ∈ ts, s = t ∨ s = .null ∨ s = .string) :
    (unifyAll ts).orString = t ∧ t ∈ ts ∨ (unifyAll ts).orString = .string ∧ t ∉ ts := by
  by_cases hmem : t ∈ ts
  · left
    have hle : ∀ s ∈ ts, s.rank ≤ t.rank := by
      intro s hs
      rcases h s hs with rfl | rfl | rfl
      · exact Nat.le_refl _
      all_goals cases t <;> simp [rank, isIndeterminate] at ht ⊢
    rw [unifyAll_eq_of_mem hmem hle, orString, ht]
    exact ⟨rfl, hmem⟩
  · right
    have hle : (unifyAll ts).rank ≤ string.rank := by
      apply rank_unifyAll_le
      intro s hs
      rcases h s hs with rfl | rfl | rfl
      · exact absurd hs hmem
      all_goals decide
    refine ⟨?_, hmem⟩
    cases hu : unifyAll ts <;> rw [hu] at hle <;> first | rfl | simp [rank] at hle

end Ty

namespace Expr

private theorem inferWhens_eq (arguments : List Ty) (found : Ty) (whens : List (When Expr)) :
    inferWhens arguments found whens =
      ((whens.map When.result).map (infer arguments)).foldl Ty.unify found := by
  induction whens generalizing found with
  | nil => rfl
  | cons w ws ih => exact ih _

end Expr

theorem Ty.ofBranches_eq (arguments : List Ty) (whens : List (When Expr))
    (otherwise : Option Expr) :
    Ty.ofBranches arguments whens otherwise =
      (Ty.unifyAll ((Expr.results whens otherwise).map (Expr.infer arguments))).orString := by
  rw [Ty.ofBranches, Expr.infer, Expr.inferWhens_eq, Ty.unifyAll, Expr.results, List.map_append,
    List.foldl_append]
  cases otherwise <;> rfl

end QueryExpr
