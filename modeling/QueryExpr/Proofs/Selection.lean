import Mathlib.Data.List.TakeWhile
import QueryExpr.Proofs.Branches

/-!
# The branch a CASE folds to

Some conditions are settled before any input is known: a constant that is false or null never
selects its branch, one that is true always does. What simplification makes of a CASE is told by the
first branch that is not ruled out in this way. If it is always selected, its result is what is left
of the CASE; if nothing is known of it, every branch stays in its place.
-/

namespace QueryExpr

namespace Simplify

/-- A constant that is false or null. -/
def NeverSelects (c : Expr) : Prop :=
  c.isConst = true ∧ (c.evalConst = .ok (.bool false) ∨ c.evalConst = .ok .null)

/-- A constant that is true. -/
def AlwaysSelects (c : Expr) : Prop := c.isConst = true ∧ c.evalConst = .ok (.bool true)

/-- The condition needs input, or it is a constant that fails or has no truth value. -/
def Undetermined (c : Expr) : Prop := ¬ NeverSelects c ∧ ¬ AlwaysSelects c

section Conditions

variable {c : Expr}

theorem decision?_eq_false_iff : decision? c = some false ↔ NeverSelects c := by
  rw [decision?_eq_some_iff]
  apply and_congr_right
  intro hconst
  constructor
  · rintro ⟨_ | _ | _, hval, htruth⟩
    · exact Or.inr hval
    · exact Or.inl hval
    · cases htruth
  · rintro (hval | hval)
    · exact ⟨some false, hval, rfl⟩
    · exact ⟨none, hval, rfl⟩

theorem decision?_eq_true_iff : decision? c = some true ↔ AlwaysSelects c := by
  rw [decision?_eq_some_iff]
  apply and_congr_right
  intro hconst
  constructor
  · rintro ⟨_ | _ | _, hval, htruth⟩
    · cases htruth
    · cases htruth
    · exact hval
  · intro hval
    exact ⟨some true, hval, rfl⟩

theorem neverSelected_iff {w : When Expr} :
    neverSelected w = true ↔ NeverSelects w.condition := by
  rw [neverSelected, beq_iff_eq, decision?_eq_false_iff]

end Conditions

section Branches

variable (arguments : List Ty) {whens before after : List (When Expr)} {w : When Expr}
  (otherwise : Option Expr)

theorem foldCase_of_never (h : ∀ w ∈ whens, NeverSelects w.condition) :
    foldCase arguments whens otherwise = otherwise.getD (.val .null) := by
  have hdrop : whens.dropWhile neverSelected = [] := by
    rw [List.dropWhile_eq_nil_iff]
    exact fun w hw => neverSelected_iff.mpr (h w hw)
  rw [foldCase, hdrop]

private theorem dropWhile_first (hbefore : ∀ u ∈ before, NeverSelects u.condition)
    (hw : ¬ NeverSelects w.condition) :
    (before ++ w :: after).dropWhile neverSelected = w :: after := by
  rw [List.dropWhile_append_of_pos, List.dropWhile_cons_of_neg]
  · exact fun h => hw (neverSelected_iff.mp h)
  · exact fun u hu => neverSelected_iff.mpr (hbefore u hu)

theorem foldCase_of_always (hbefore : ∀ u ∈ before, NeverSelects u.condition)
    (hw : AlwaysSelects w.condition) :
    foldCase arguments (before ++ w :: after) otherwise = w.result := by
  have hselected : decision? w.condition = some true := decision?_eq_true_iff.mpr hw
  have hkept : ¬ NeverSelects w.condition := by
    rw [← decision?_eq_false_iff, hselected]
    exact nofun
  rw [foldCase, dropWhile_first hbefore hkept]
  exact if_pos hselected

theorem foldCase_of_undetermined (hbefore : ∀ u ∈ before, NeverSelects u.condition)
    (hw : Undetermined w.condition) :
    foldCase arguments (before ++ w :: after) otherwise =
      .case (before ++ w :: after) otherwise
        (some (Ty.ofBranches arguments (before ++ w :: after) otherwise)) := by
  rw [foldCase, dropWhile_first hbefore hw.1]
  exact if_neg fun h => hw.2 (decision?_eq_true_iff.mp h)

end Branches

end Simplify

namespace Expr

open Simplify

variable (arguments : List Ty)

/--
The first branch whose simplified condition does not rule it out decides what becomes of a CASE. If
it is always selected, its simplified result is left; if nothing is known of it, the CASE stays, all
its branches and its ELSE simplified in their places. Where every branch is ruled out, the
simplified ELSE is left, or null. Nothing else in the CASE matters, not even the type it carries.
-/
theorem simplify_case_outcome (whens : List (When Expr)) (otherwise : Option Expr)
    (ty : Option Ty) :
    let left := (case whens otherwise ty).simplify arguments
    let whens' := whens.map (When.map (simplify arguments))
    let otherwise' := otherwise.map (simplify arguments)
    (∀ before w after, whens = before ++ w :: after →
      (∀ u ∈ before, NeverSelects (u.condition.simplify arguments)) →
      (AlwaysSelects (w.condition.simplify arguments) → left = w.result.simplify arguments) ∧
        (Undetermined (w.condition.simplify arguments) →
          left = case whens' otherwise' (some (Ty.ofBranches arguments whens' otherwise')))) ∧
      ((∀ w ∈ whens, NeverSelects (w.condition.simplify arguments)) →
        left = otherwise'.getD (val .null)) := by
  intro left whens' otherwise'
  have hleft : left = foldCase arguments whens' otherwise' :=
    simplify_case arguments whens otherwise ty
  have hnever : ∀ ws : List (When Expr),
      (∀ u ∈ ws, NeverSelects (u.condition.simplify arguments)) →
        ∀ u ∈ ws.map (When.map (simplify arguments)), NeverSelects u.condition := by
    intro ws h u hu
    obtain ⟨v, hv, rfl⟩ := List.mem_map.mp hu
    exact h v hv
  refine ⟨fun before w after hwhens hbefore => ?_, fun h => ?_⟩
  · have hsplit : whens' = before.map (When.map (simplify arguments)) ++
        w.map (simplify arguments) :: after.map (When.map (simplify arguments)) := by
      change whens.map _ = _
      rw [hwhens, List.map_append, List.map_cons]
    rw [hleft, hsplit]
    constructor
    · intro hw
      exact foldCase_of_always arguments otherwise' (w := w.map (simplify arguments))
        (hnever before hbefore) hw
    · intro hw
      exact foldCase_of_undetermined arguments otherwise' (w := w.map (simplify arguments))
        (hnever before hbefore) hw
  · rw [hleft]
    exact foldCase_of_never arguments otherwise' (hnever whens h)

/-- A branch that an unknown comparison rules out. -/
def unknownBranch : When Expr := ⟨cmp .lt (val .null) (val (.i64 1)), val (.string "a")⟩

/-- A branch whose condition is a constant that fails. -/
def failingBranch : When Expr := ⟨cmp .eq (val (.string "a")) (val (.i64 1)), not (not (arg 0))⟩

/-- A branch that is selected, once its condition is simplified. -/
def selectedBranch : When Expr :=
  ⟨not (cmp .lt (val (.i64 2)) (val (.i64 1))), cast (arg 0) .unknown⟩

theorem simplify_case_outcome_threefold :
    NeverSelects (unknownBranch.condition.simplify [.bool]) ∧
      AlwaysSelects (selectedBranch.condition.simplify [.bool]) ∧
      Undetermined (failingBranch.condition.simplify [.bool]) ∧
      (case [unknownBranch, selectedBranch, failingBranch] none (some .i64)).simplify [.bool] =
        arg 0 ∧
      (case [unknownBranch, failingBranch, selectedBranch] none (some .i64)).simplify [.bool] =
        case [⟨val .null, val (.string "a")⟩, ⟨failingBranch.condition, arg 0⟩,
          ⟨val (.bool true), arg 0⟩] none (some .bool) ∧
      (case [unknownBranch] (some (isNull false (val .null))) none).simplify [.bool] =
        val (.bool true) := by
  have hnever : NeverSelects (unknownBranch.condition.simplify [.bool]) := ⟨rfl, Or.inr rfl⟩
  have halways : AlwaysSelects (selectedBranch.condition.simplify [.bool]) := ⟨rfl, rfl⟩
  have hopen : Undetermined (failingBranch.condition.simplify [.bool]) := by
    constructor
    · rintro ⟨-, hval | hval⟩ <;> cases hval
    · rintro ⟨-, hval⟩
      cases hval
  have hbefore : ∀ u ∈ [unknownBranch], NeverSelects (u.condition.simplify [.bool]) := by
    intro u hu
    rw [List.mem_singleton.mp hu]
    exact hnever
  have hselected := simplify_case_outcome [.bool] [unknownBranch, selectedBranch, failingBranch]
    none (some .i64)
  have hstays := simplify_case_outcome [.bool] [unknownBranch, failingBranch, selectedBranch]
    none (some .i64)
  have helse := simplify_case_outcome [.bool] [unknownBranch] (some (isNull false (val .null))) none
  refine ⟨hnever, halways, hopen, ?_, ?_, ?_⟩
  · exact (hselected.1 [unknownBranch] selectedBranch [failingBranch] rfl hbefore).1 halways
  · exact (hstays.1 [unknownBranch] failingBranch [selectedBranch] rfl hbefore).2 hopen
  · exact helse.2 hbefore

end Expr

end QueryExpr
