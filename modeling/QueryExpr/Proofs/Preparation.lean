import QueryExpr.Plan
import QueryExpr.Proofs.Preservation

/-!
# Prepared expressions

The type a plan reports is the type of its values, whether the expression was simplified or only
given its CASE types.
-/

namespace QueryExpr

namespace Expr

variable {arguments : List Ty} {input : Input}

/-- The inferred type of a node is that of its values, if a CASE carries a type to convert to. -/
theorem ty_of_eval {e : Expr} (hcase : ∀ whens otherwise, e ≠ case whens otherwise none)
    (hin : Answered arguments input e) (hty : (e.infer arguments).isIndeterminate = false)
    {v : Value} (hv : (e.eval input).result = .ok v) : v = .null ∨ v.ty = e.infer arguments := by
  cases e with
  | val w =>
      cases hv
      exact Or.inr rfl
  | arg position => exact (hin v (require_ok hv)).eq_null_or hty
  | col name ty => exact (hin v (require_ok hv)).eq_null_or hty
  | and | or | cmp | isNull | not => exact (fits_bool_of_eval rfl hv).eq_null_or rfl
  | case whens otherwise ty =>
      cases ty with
      | none => exact absurd rfl (hcase whens otherwise)
      | some ty =>
          rw [eval_case] at hv
          obtain ⟨w, -, hv⟩ := Outcome.result_bind_ok.mp hv
          rw [infer] at hty ⊢
          exact Ty.convert_typed hty hv
  | cast x ty =>
      obtain ⟨w, -, hv⟩ := Outcome.result_bind_ok.mp hv
      exact Ty.convert_typed hty hv

theorem attachType_ne_case_none (e : Expr) (whens : List (When Expr)) (otherwise : Option Expr) :
    e.attachType arguments ≠ case whens otherwise none := by
  unfold attachType
  split
  · simp
  · rename_i hcase
    exact hcase whens otherwise

theorem simplify_ne_case_none (e : Expr) (whens : List (When Expr)) (otherwise : Option Expr) :
    e.simplify arguments ≠ case whens otherwise none := by
  intro h
  have hshaped := (simplify_reduced arguments e _ (self_mem_subterms _)).1
  rw [h] at hshaped
  simp [Simplify.Shaped] at hshaped

theorem infer_attachType (e : Expr) :
    (e.attachType arguments).infer arguments = e.infer arguments := by
  unfold attachType
  split
  · rw [infer]
    rfl
  · rfl

theorem infer_mapChildren {e : Expr} {f : Expr → Expr}
    (h : ∀ x ∈ e.children, (f x).infer arguments = x.infer arguments) :
    (e.mapChildren f).infer arguments = e.infer arguments := by
  cases e with
  | case whens otherwise ty =>
      cases ty with
      | some ty => rfl
      | none =>
          change Ty.ofBranches arguments _ _ = Ty.ofBranches arguments _ _
          rw [Ty.ofBranches_eq, Ty.ofBranches_eq, results_map, List.map_map]
          congr 2
          apply List.map_congr_left
          exact fun x hx => h x (mem_children_of_mem_results hx)
  | _ => rfl

theorem resolveTypes_eq (arguments : List Ty) (e : Expr) :
    e.resolveTypes arguments = (e.mapChildren (resolveTypes arguments)).attachType arguments :=
  rebuild_eq (attachType arguments) e

theorem infer_resolveTypes (e : Expr) :
    (e.resolveTypes arguments).infer arguments = e.infer arguments := by
  induction e using induct with
  | node e ih =>
      rw [resolveTypes_eq, infer_attachType]
      exact infer_mapChildren ih

/-- A CASE ends up with the type that is inferred for it, whether it carried that type or not. -/
theorem resolveTypes_case (whens : List (When Expr)) (otherwise : Option Expr) (ty : Option Ty) :
    (case whens otherwise ty).resolveTypes arguments =
      case (whens.map (When.map (resolveTypes arguments)))
        (otherwise.map (resolveTypes arguments))
        (some ((case whens otherwise ty).infer arguments)) := by
  rw [resolveTypes_eq]
  cases ty with
  | some ty => rfl
  | none =>
      have hinfer : (mapChildren (resolveTypes arguments) (case whens otherwise none)).infer
          arguments = (case whens otherwise none).infer arguments :=
        infer_mapChildren fun x _ => infer_resolveTypes x
      exact congrArg (fun t => case _ _ (some t)) hinfer

theorem resolveTypes_of_not_case {e : Expr} (h : e.isCase = false) :
    e.resolveTypes arguments = e.mapChildren (resolveTypes arguments) := by
  rw [resolveTypes_eq]
  cases e with
  | case => cases h
  | _ => rfl

/-- The node is not a connective without operands. -/
def hasOperands : Expr → Bool
  | and [] | or [] => false
  | _ => true

end Expr

namespace Plan

variable {arguments : List Ty} {input : Input}

/-- A plan that reports a type evaluates to null or to a value of this type. -/
theorem ty_of_prepare (planner : Planner) (e : Expr)
    (hin : Expr.RespectedBy arguments input (planner.prepare arguments e).expr)
    (hty : (planner.prepare arguments e).ty.isIndeterminate = false) {v : Value}
    (hv : ((planner.prepare arguments e).eval input).result = .ok v) :
    v = .null ∨ v.ty = (planner.prepare arguments e).ty := by
  apply Expr.ty_of_eval _ (Expr.everywhere_iff.mp hin).1 hty hv
  intro whens otherwise
  unfold Planner.prepare
  dsimp only
  split
  · exact Expr.simplify_ne_case_none e whens otherwise
  · rw [Expr.resolveTypes, Expr.rebuild_eq]
    exact Expr.attachType_ne_case_none _ whens otherwise

/-- Branches of two numeric types, of which the narrower one is chosen. -/
def widenedCase : Expr :=
  .case [⟨.cmp .gt (.col "x" .i64) (.val (.i64 0)), .val (.i32 1)⟩] (some (.val (.f64 .zero))) none

def widenedCaseRow : Row := ⟨[("x", .i64 3)], []⟩

theorem ty_of_prepare_widenedCase :
    let plan := Planner.prepare ⟨.canonical, false⟩ [] widenedCase
    Expr.RespectedBy [] widenedCaseRow.toInput plan.expr ∧ plan.ty.isIndeterminate = false ∧
      (plan.eval widenedCaseRow.toInput).result = .ok (.f64 .one) ∧
      (Value.f64 .one = .null ∨ (Value.f64 .one).ty = plan.ty) :=
  ⟨by decide, rfl, rfl, @ty_of_prepare [] widenedCaseRow.toInput ⟨.canonical, false⟩ widenedCase
    (by decide) rfl _ rfl⟩

end Plan

end QueryExpr
