import Mathlib.Data.List.Forall2
import QueryExpr.Proofs.Drafts
import QueryExpr.Proofs.Preparation

/-!
# The types that CASE nodes carry

An expression prepared without simplification is the one that was given, and every CASE of it
carries a type: the one it came with, or else the one its results share. Simplification gives every
CASE it leaves the type its results share. Preparing a prepared expression again changes nothing.
-/

namespace QueryExpr

namespace Ty

theorem isIndeterminate_orString (t : Ty) : t.orString.isIndeterminate = false := by
  cases t <;> rfl

theorem isIndeterminate_ofBranches (arguments : List Ty) (whens : List (When Expr))
    (otherwise : Option Expr) : (ofBranches arguments whens otherwise).isIndeterminate = false := by
  rw [ofBranches_eq]
  exact isIndeterminate_orString _

end Ty

namespace Expr

/-- To attach a type to a CASE is to collect its parts anew and to finish with the type. -/
theorem attachType_of_case? (arguments : List Ty) {e : Expr} {c : Case} (hc : e.case? = some c)
    (hty : c.ty = none) : e.attachType arguments =
      ((Case.Draft.run c.steps).finalize (some (e.infer arguments))).toExpr := by
  rw [Case.Draft.finalize_run_steps]
  cases e with
  | case whens otherwise ty =>
      cases hc
      obtain rfl : ty = none := hty
      rfl
  | _ => cases hc

def dropType : Expr → Expr
  | case whens otherwise _ => case whens otherwise none
  | e => e

/-- The expression without the types that its CASE nodes carry. -/
def eraseTypes (e : Expr) : Expr := e.rebuild dropType

/-- At a CASE: the type it carries, if any. -/
def caseType? : Expr → Option (Option Ty)
  | case _ _ ty => some ty
  | _ => none

/-- What the CASE nodes carry, in the order in which a reader meets them. -/
def caseTypes (e : Expr) : List (Option Ty) := e.subterms.filterMap caseType?

/-- A type that was there is kept, and one that was missing is there. -/
def Completes (before after : Option Ty) : Prop :=
  ∃ ty, after = some ty ∧ (before = none ∨ before = some ty)

/-- At a CASE: it carries a type that says something, and without it the same type is inferred. -/
def Recorded (arguments : List Ty) : Expr → Prop
  | case whens otherwise ty =>
      ∃ t, ty = some t ∧ t.isIndeterminate = false ∧
        (case whens otherwise none).infer arguments = t
  | _ => True

variable (arguments : List Ty)

theorem eraseTypes_eq (e : Expr) : e.eraseTypes = (e.mapChildren eraseTypes).dropType :=
  rebuild_eq dropType e

section Node

private theorem dropType_attachType (f : Expr → Expr) (e : Expr) :
    ((e.attachType arguments).mapChildren f).dropType = (e.mapChildren f).dropType := by
  cases e with
  | case whens otherwise ty => cases ty <;> rfl
  | _ => rfl

private theorem children_attachType (e : Expr) : (e.attachType arguments).children = e.children := by
  cases e with
  | case whens otherwise ty => cases ty <;> rfl
  | _ => rfl

private theorem attachType_attachType (e : Expr) :
    (e.attachType arguments).attachType arguments = e.attachType arguments := by
  cases e with
  | case whens otherwise ty => cases ty <;> rfl
  | _ => rfl

private theorem caseType?_mapChildren (f : Expr → Expr) (e : Expr) :
    (e.mapChildren f).caseType? = e.caseType? := by
  cases e <;> rfl

private theorem caseType?_attachType (e : Expr) :
    Option.Rel Completes e.caseType? (e.attachType arguments).caseType? := by
  cases e with
  | case whens otherwise ty =>
      cases ty with
      | none => exact .some ⟨_, rfl, Or.inl rfl⟩
      | some ty => exact .some ⟨ty, rfl, Or.inr rfl⟩
  | _ => exact .none

private theorem recorded_attachType {e : Expr} (h : e.caseType? = some none) :
    (e.attachType arguments).isCase = true ∧ Recorded arguments (e.attachType arguments) := by
  cases e with
  | case whens otherwise ty =>
      obtain rfl : ty = none := Option.some.inj h
      exact ⟨rfl, _, rfl, Ty.isIndeterminate_ofBranches arguments whens otherwise, rfl⟩
  | _ => cases h

end Node

theorem eraseTypes_resolveTypes (e : Expr) :
    (e.resolveTypes arguments).eraseTypes = e.eraseTypes := by
  induction e using induct with
  | node e ih =>
      rw [resolveTypes_eq, eraseTypes_eq, dropType_attachType, mapChildren_mapChildren,
        mapChildren_congr ih, ← eraseTypes_eq]

theorem subterms_resolveTypes (e : Expr) :
    (e.resolveTypes arguments).subterms = e.subterms.map (resolveTypes arguments) :=
  subterms_rebuild (children_attachType arguments) e

private theorem forall₂_subterms {R : Expr → Expr → Prop} (e : Expr)
    (h : ∀ x, R x (x.resolveTypes arguments)) :
    List.Forall₂ R e.subterms (e.resolveTypes arguments).subterms := by
  rw [subterms_resolveTypes, List.forall₂_map_right_iff, List.forall₂_same]
  exact fun x _ => h x

theorem caseTypes_resolveTypes (e : Expr) :
    List.Forall₂ Completes e.caseTypes (e.resolveTypes arguments).caseTypes := by
  have hnodes := forall₂_subterms arguments
    (R := fun x y => Option.Rel Completes x.caseType? y.caseType?) e
  apply List.rel_filterMap (fun _ _ h => h) (hnodes fun x => ?_)
  rw [resolveTypes_eq, ← caseType?_mapChildren (resolveTypes arguments) x]
  exact caseType?_attachType arguments _

theorem resolveTypes_resolveTypes (e : Expr) :
    (e.resolveTypes arguments).resolveTypes arguments = e.resolveTypes arguments := by
  apply rebuild_of_everywhere
  apply everywhere_rebuild
  intro e hparts
  rw [everywhere_iff, children_attachType]
  exact ⟨attachType_attachType arguments e, hparts⟩

theorem recorded_resolveTypes {e : Expr} (h : e.caseType? = some none) :
    (e.resolveTypes arguments).isCase = true ∧
      Recorded arguments (e.resolveTypes arguments) := by
  rw [resolveTypes_eq]
  exact recorded_attachType arguments (by rw [caseType?_mapChildren, h])

/-- Whatever simplification does above a CASE, the type recorded there stays the inferred one. -/
theorem recorded_simplify (e : Expr) :
    Everywhere (Recorded arguments) (e.simplify arguments) := by
  intro x hx
  have hshaped := (simplify_reduced arguments e x hx).1
  cases x with
  | case whens otherwise ty =>
      exact ⟨_, hshaped, Ty.isIndeterminate_ofBranches arguments whens otherwise, rfl⟩
  | _ => trivial

end Expr

namespace Plan

/--
Prepared without simplification, an expression differs from the given one in nothing but the types
of its CASE nodes. Every CASE has one then, which is its own if it had one. Prepared once more, the
expression leads to the same plan.
-/
theorem prepare_attaches_types (planner : Planner) (arguments : List Ty) (e : Expr) :
    let plan := { planner with simplifies := false }.prepare arguments e
    plan.expr.eraseTypes = e.eraseTypes ∧
      List.Forall₂ Expr.Completes e.caseTypes plan.expr.caseTypes ∧
      { planner with simplifies := false }.prepare arguments plan.expr = plan := by
  refine ⟨Expr.eraseTypes_resolveTypes arguments e, Expr.caseTypes_resolveTypes arguments e, ?_⟩
  have hsame : (e.resolveTypes arguments).resolveTypes arguments = e.resolveTypes arguments :=
    Expr.resolveTypes_resolveTypes arguments e
  simp only [Planner.prepare, Bool.false_eq_true, if_false, hsame]

/--
The type a CASE carries after simplification says something and is the one inferred without it. The
same holds, place by place, of a CASE that had no type before the expression was prepared without
simplification.
-/
theorem prepare_records_types (planner : Planner) (arguments : List Ty) (e : Expr) :
    Expr.Everywhere (Expr.Recorded arguments) (e.simplify arguments) ∧
      List.Forall₂
        (fun before after => after.eraseTypes = before.eraseTypes ∧
          (before.caseType? = some none → after.isCase = true ∧ Expr.Recorded arguments after))
        e.subterms ({ planner with simplifies := false }.prepare arguments e).expr.subterms := by
  refine ⟨Expr.recorded_simplify arguments e, Expr.forall₂_subterms arguments e fun x => ?_⟩
  exact ⟨Expr.eraseTypes_resolveTypes arguments x, Expr.recorded_resolveTypes arguments⟩

end Plan

end QueryExpr
