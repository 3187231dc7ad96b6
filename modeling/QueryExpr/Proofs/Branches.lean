import QueryExpr.Proofs.CasePass
import QueryExpr.Proofs.Lookups
import QueryExpr.Proofs.Soundness

/-!
# Branches decided in advance

A branch that is never selected may be left out, and nothing after one that is always selected is
reached. So a CASE folds to the branch that its evaluation would choose.
-/

namespace QueryExpr

open QueryExpr.Expr

variable {input : Input}

namespace Simplify

private theorem bind_truth_eq_ok_iff {result : Except Error Value} {truth : Option Bool} :
    result.bind Value.truth = .ok truth ↔ result = .ok (Value.ofTruth truth) := by
  cases result with
  | error err => exact ⟨nofun, nofun⟩
  | ok v =>
      constructor
      · intro h
        rw [truth_ok h]
      · intro h
        cases h
        exact truth_ofTruth truth

/-- A decision is the truth value that a constant has, with null for false. -/
theorem decision?_eq_some_iff {c : Expr} {b : Bool} :
    decision? c = some b ↔
      c.isConst = true ∧
        ∃ truth, c.evalConst = .ok (Value.ofTruth truth) ∧ truth.getD false = b := by
  unfold decision?
  split
  · rename_i hconst
    simp only [hconst, true_and]
    split
    · rename_i truth htruth
      rw [Option.some.injEq]
      constructor
      · exact fun h => ⟨truth, bind_truth_eq_ok_iff.mp htruth, h⟩
      · rintro ⟨truth', hval, h⟩
        rw [bind_truth_eq_ok_iff.mpr hval] at htruth
        cases htruth
        exact h
    · rename_i err hfails
      constructor
      · exact nofun
      · rintro ⟨truth, hval, -⟩
        rw [bind_truth_eq_ok_iff.mpr hval] at hfails
        cases hfails
  · rename_i hconst
    exact ⟨nofun, fun h => absurd h.1 hconst⟩

theorem decision?_eq_some (input : Input) {c : Expr} {b : Bool} (h : decision? c = some b) :
    ∃ truth, c.eval input = pure (Value.ofTruth truth) ∧ truth.getD false = b := by
  obtain ⟨hconst, truth, hval, htruth⟩ := decision?_eq_some_iff.mp h
  refine ⟨truth, ?_, htruth⟩
  rw [eval_of_isConst hconst, hval]
  rfl

theorem evalWhens_of_false {w : When Expr} (h : decision? w.condition = some false)
    (ws : List (When Expr)) : evalWhens input (w :: ws) = evalWhens input ws := by
  obtain ⟨truth, hc, htruth⟩ := decision?_eq_some input h
  rw [evalWhens_cons, hc, pure_bind, truth_ofTruth, Outcome.ofResult_ok, pure_bind]
  match truth with
  | none | some false => rfl
  | some true => simp at htruth

theorem evalWhens_of_true {w : When Expr} (h : decision? w.condition = some true)
    (ws : List (When Expr)) :
    evalWhens input (w :: ws) = w.result.eval input >>= fun v => pure (some v) := by
  obtain ⟨truth, hc, htruth⟩ := decision?_eq_some input h
  rw [evalWhens_cons, hc, pure_bind, truth_ofTruth, Outcome.ofResult_ok, pure_bind]
  match truth with
  | none | some false => simp at htruth
  | some true => rfl

theorem evalWhens_dropWhile (whens : List (When Expr)) :
    evalWhens input (whens.dropWhile neverSelected) = evalWhens input whens := by
  induction whens with
  | nil => rfl
  | cons w ws ih =>
      by_cases hw : neverSelected w = true
      · rw [List.dropWhile_cons_of_pos hw, ih, evalWhens_of_false (beq_iff_eq.mp hw)]
      · rw [List.dropWhile_cons_of_neg hw]

/-- A folded CASE has the value of the branch that is chosen, unless it stays a CASE. -/
theorem eval_foldCase (input : Input) (arguments : List Ty) (whens : List (When Expr))
    (otherwise : Option Expr) :
    foldCase arguments whens otherwise =
        .case whens otherwise (some (Ty.ofBranches arguments whens otherwise)) ∨
      (foldCase arguments whens otherwise).eval input = evalBranches input whens otherwise := by
  have hskip : evalBranches input whens otherwise =
      evalBranches input (whens.dropWhile neverSelected) otherwise := by
    rw [evalBranches, evalBranches, evalWhens_dropWhile]
  rw [hskip]
  unfold foldCase
  split
  · right
    rename_i hnil
    rw [hnil]
    change _ = pure none >>= _
    rw [pure_bind]
    cases otherwise <;> rfl
  · rename_i w ws hdrop
    rw [hdrop]
    split
    · right
      rename_i hw
      rw [evalBranches, evalWhens_of_true hw, bind_assoc]
      change w.result.eval input = w.result.eval input >>= fun v => pure (some v) >>= _
      simp only [pure_bind]
      exact (bind_pure _).symm
    · exact Or.inl rfl

end Simplify

end QueryExpr
