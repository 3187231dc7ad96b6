import QueryExpr.Proofs.Drafts
import QueryExpr.Proofs.Unification
import QueryExpr.Simplify

/-!
# The pass over a CASE

What the pass over the branches of a CASE comes down to can be told from the list of all simplified
branches: those that are never selected are skipped, and the next one decides. A draft, a flag and a
running type are enough for it, because at every branch they hold just the branches so far, whether
one of these may be selected, and the type they share. With this, simplification is a rebuilding
from the leaves to the root, with one rule for every kind of node.
-/

namespace QueryExpr

namespace Simplify

/-- The condition is known never to select its branch. -/
def neverSelected (w : When Expr) : Bool := decision? w.condition == some false

/--
Branches that are never selected are skipped. If the next one is always selected, its result stands
for the whole; if there is none, the result of ELSE does. Otherwise all branches are kept.
-/
def foldCase (arguments : List Ty) (whens : List (When Expr)) (otherwise : Option Expr) : Expr :=
  match whens.dropWhile neverSelected with
  | [] => otherwise.getD (.val .null)
  | w :: _ =>
      if decision? w.condition = some true then w.result
      else .case whens otherwise (some (Ty.ofBranches arguments whens otherwise))

/-- The rule for a node of any kind. -/
def node (arguments : List Ty) : Expr → Expr
  | .case whens otherwise _ => foldCase arguments whens otherwise
  | e => rule arguments e

theorem node_eq_rule {arguments : List Ty} {e : Expr} (h : e.isCase = false) :
    node arguments e = rule arguments e := by
  cases e with
  | case => cases h
  | _ => rfl

namespace Progress

variable {arguments : List Ty} {p : Progress} {before : List (When Expr)}

/-- The pass is behind these branches, and none of them has ended it. -/
structure Behind (arguments : List Ty) (before : List (When Expr)) (p : Progress) : Prop where
  noneSelected : p.noneSelected = before.all neverSelected
  ty : p.ty = Ty.unifyAll (before.map fun w => w.result.infer arguments)
  draft : p.draft = Case.Draft.run (before.map .branch)
  unsettled : ∀ w after, before.dropWhile neverSelected = w :: after →
    decision? w.condition ≠ some true

theorem behind_start : start.Behind arguments [] where
  noneSelected := rfl
  ty := rfl
  draft := rfl
  unsettled := nofun

private theorem dropWhile_of_all (h : before.all neverSelected = true) (after : List (When Expr)) :
    (before ++ after).dropWhile neverSelected = after.dropWhile neverSelected :=
  List.dropWhile_append_of_pos (List.all_eq_true.mp h)

private theorem dropWhile_of_not_all (h : before.all neverSelected = false) :
    ∃ w rest, before.dropWhile neverSelected = w :: rest ∧ ∀ after,
      (before ++ after).dropWhile neverSelected = w :: (rest ++ after) := by
  induction before with
  | nil => cases h
  | cons u us ih =>
      by_cases hu : neverSelected u = true
      · rw [List.all_cons, hu, Bool.true_and] at h
        obtain ⟨w, rest, hdrop, happend⟩ := ih h
        refine ⟨w, rest, ?_, fun after => ?_⟩
        · rw [List.dropWhile_cons_of_pos hu, hdrop]
        · rw [List.cons_append, List.dropWhile_cons_of_pos hu, happend]
      · refine ⟨u, us, List.dropWhile_cons_of_neg hu, fun after => ?_⟩
        rw [List.cons_append, List.dropWhile_cons_of_neg hu]

theorem Behind.collect (h : p.Behind arguments before) {w : When Expr}
    (hw : p.noneSelected = true → decision? w.condition ≠ some true) (flag : Bool)
    (hflag : flag = (p.noneSelected && neverSelected w)) :
    (Progress.collect arguments { p with noneSelected := flag } w).Behind arguments
      (before ++ [w]) where
  noneSelected := by
    rw [List.all_append, ← h.noneSelected, List.all_cons, List.all_nil, Bool.and_true]
    exact hflag
  ty := by
    rw [List.map_append, Ty.unifyAll, List.foldl_append, ← Ty.unifyAll, ← h.ty]
    rfl
  draft := by
    rw [List.map_append, Case.Draft.run, List.foldl_append, ← Case.Draft.run, ← h.draft]
    rfl
  unsettled := by
    intro u after hdrop
    cases hall : before.all neverSelected with
    | true =>
        rw [dropWhile_of_all hall] at hdrop
        by_cases hnever : neverSelected w = true
        · rw [List.dropWhile_cons_of_pos hnever] at hdrop
          cases hdrop
        · rw [List.dropWhile_cons_of_neg hnever] at hdrop
          cases hdrop
          exact hw (h.noneSelected.trans hall)
    | false =>
        obtain ⟨v, rest, hbefore, happend⟩ := dropWhile_of_not_all hall
        rw [happend] at hdrop
        cases hdrop
        exact h.unsettled _ rest hbefore

/-- The next branch ends the pass, or the pass is behind it. -/
theorem branch_cases (h : p.Behind arguments before) (w : When Expr) :
    (before.all neverSelected = true ∧ decision? w.condition = some true ∧
      p.branch arguments w = .error w.result) ∨
    ∃ q : Progress, p.branch arguments w = .ok q ∧ q.Behind arguments (before ++ [w]) := by
  unfold branch
  cases hflag : p.noneSelected with
  | false =>
      refine Or.inr ⟨_, rfl, ?_⟩
      exact h.collect (fun htrue => absurd htrue (by simp [hflag])) p.noneSelected (by simp [hflag])
  | true =>
      cases hw : decision? w.condition with
      | none =>
          refine Or.inr ⟨_, rfl, h.collect (by simp [hw]) false ?_⟩
          simp [neverSelected, hw]
      | some selected =>
          cases selected with
          | true => exact Or.inl ⟨by rw [← h.noneSelected, hflag], rfl, rfl⟩
          | false =>
              refine Or.inr ⟨_, rfl, h.collect (by simp [hw]) p.noneSelected ?_⟩
              simp [neverSelected, hw]

theorem Behind.refusal_eq_none (h : p.Behind arguments before) (s : Case.Draft.Step) :
    p.draft.refusal s = none := by
  rw [Case.Draft.refusal_eq, h.draft, Case.Draft.isSome_otherwise_run]
  simp [Case.Draft.Step.isBranch]

theorem complete_eq {whens : List (When Expr)} {otherwise : Option Expr}
    (hty : p.ty = Ty.unifyAll ((Expr.results whens otherwise).map (Expr.infer arguments)))
    (hdraft : p.draft = Case.Draft.run (Case.steps ⟨whens, otherwise, none⟩)) :
    p.complete = .case whens otherwise (some (Ty.ofBranches arguments whens otherwise)) := by
  rw [complete, hty, hdraft, Case.Draft.finalize_run_steps, Ty.ofBranches_eq]
  rfl

theorem finish_eq (h : p.Behind arguments before) (otherwise : Option Expr) :
    p.finish arguments otherwise = foldCase arguments before otherwise := by
  cases hall : before.all neverSelected with
  | true =>
      have hflag : p.noneSelected = true := h.noneSelected.trans hall
      have hdrop : before.dropWhile neverSelected = [] := by
        simpa using dropWhile_of_all hall []
      rw [foldCase, hdrop]
      cases otherwise <;> exact if_pos hflag
  | false =>
      have hflag : ¬ p.noneSelected = true := by simp [h.noneSelected, hall]
      obtain ⟨w, rest, hdrop, -⟩ := dropWhile_of_not_all hall
      rw [foldCase, hdrop]
      simp only [h.unsettled w rest hdrop, if_false]
      cases otherwise with
      | none =>
          rw [finish, if_neg hflag]
          apply complete_eq
          · simpa [Expr.results, Function.comp_def] using h.ty
          · simpa [Case.steps] using h.draft
      | some x =>
          rw [finish, if_neg hflag]
          apply complete_eq
          · simp [Expr.results, Function.comp_def, Ty.unifyAll, h.ty]
          · simp [Case.steps, Case.Draft.run, h.draft]

/-- What is left of the branches is passed through, and ELSE is looked at last. -/
theorem pass_eq_foldCase (h : p.Behind arguments before) (whens : List (When Expr))
    (otherwise : Option Expr) :
    (match whens.foldlM (branch arguments) p with
      | .error result => result
      | .ok q => q.finish arguments otherwise) =
        foldCase arguments (before ++ whens) otherwise := by
  induction whens generalizing p before with
  | nil =>
      rw [List.append_nil]
      exact finish_eq h otherwise
  | cons w ws ih =>
      rcases branch_cases h w with ⟨hall, hselected, hends⟩ | ⟨q, hq, hbehind⟩
      · have hnever : ¬ neverSelected w = true := by simp [neverSelected, hselected]
        rw [List.foldlM_cons, hends, foldCase, dropWhile_of_all hall,
          List.dropWhile_cons_of_neg hnever]
        exact (if_pos hselected).symm
      · rw [List.foldlM_cons, hq, List.append_cons]
        exact ih hbehind

end Progress

end Simplify

namespace Expr

open Simplify

variable (arguments : List Ty)

private theorem simplifyList_eq (xs : List Expr) :
    simplifyList arguments xs = xs.map (simplify arguments) := by
  induction xs with
  | nil => rfl
  | cons x xs ih => rw [simplifyList, ih, List.map_cons]

private theorem simplifyOption_eq (o : Option Expr) :
    simplifyOption arguments o = o.map (simplify arguments) := by
  cases o <;> rfl

private theorem simplifyBranches_eq (p : Progress) (ws : List (When Expr)) :
    simplifyBranches arguments p ws =
      (ws.map (When.map (simplify arguments))).foldlM (Progress.branch arguments) p := by
  induction ws generalizing p with
  | nil => rfl
  | cons w ws ih =>
      rw [simplifyBranches, List.map_cons, List.foldlM_cons]
      congr 1
      funext q
      exact ih q

theorem simplify_case (whens : List (When Expr)) (otherwise : Option Expr) (ty : Option Ty) :
    (case whens otherwise ty).simplify arguments =
      foldCase arguments (whens.map (When.map (simplify arguments)))
        (otherwise.map (simplify arguments)) := by
  rw [simplify, simplifyBranches_eq, simplifyOption_eq]
  exact Progress.pass_eq_foldCase Progress.behind_start _ _

/-- An expression is simplified by the rule for its node, after its parts. -/
theorem simplify_eq (e : Expr) :
    e.simplify arguments = node arguments (e.mapChildren (simplify arguments)) := by
  cases e with
  | case whens otherwise ty => exact simplify_case arguments whens otherwise ty
  | and xs | or xs => rw [simplify, simplifyList_eq]; rfl
  | _ => rfl

theorem simplify_eq_rebuild (e : Expr) : e.simplify arguments = e.rebuild (node arguments) := by
  induction e using induct with
  | node e ih => rw [simplify_eq, rebuild_eq, mapChildren_congr ih]

end Expr

end QueryExpr
