import QueryExpr.Proofs.Branches
import QueryExpr.Proofs.NormalForm

/-!
# Irreducible expressions

The forms that simplification promises to remove, each told from the node and its direct parts. A
settled node has none of them. What remains to be seen is that a constant node which is still there
has no value: a CASE among them fails at the condition that was left undecided.
-/

namespace QueryExpr

namespace Simplify

inductive IsConnective : (List Expr → Expr) → Prop
  | and : IsConnective .and
  | or : IsConnective .or

/-- Constants that select nothing, up to a true one or up to the end. -/
def Decided : List (When Expr) → Prop
  | [] => True
  | w :: ws =>
      w.condition.isConst = true ∧
        (w.condition.evalConst = .ok (.bool true) ∨
          (w.condition.evalConst = .ok (.bool false) ∨ w.condition.evalConst = .ok .null) ∧
            Decided ws)

/-- A node that a rule of simplification would change. -/
inductive Redex (arguments : List Ty) : Expr → Prop
  | fewOperands {connective : List Expr → Expr} {xs : List Expr} (hc : IsConnective connective)
      (h : xs.length < 2) : Redex arguments (connective xs)
  | sameConnective {connective : List Expr → Expr} {xs ys : List Expr}
      (hc : IsConnective connective) (h : connective ys ∈ xs) : Redex arguments (connective xs)
  | truthOperand {connective : List Expr → Expr} {xs : List Expr} {b : Bool}
      (hc : IsConnective connective) (h : .val (.bool b) ∈ xs) : Redex arguments (connective xs)
  | nullOperand {op : Comparison} {l r : Expr} (h : l = .val .null ∨ r = .val .null) :
      Redex arguments (.cmp op l r)
  | constantLeft {op : Comparison} {v : Value} {r : Expr} (h : r.isValue = false) :
      Redex arguments (.cmp op (.val v) r)
  | indeterminateCast {x : Expr} {ty : Ty} (h : ty.isIndeterminate = true) :
      Redex arguments (.cast x ty)
  | sameCast {x : Expr} : Redex arguments (.cast x (x.infer arguments))
  | doubleNegation {x : Expr} : Redex arguments (.not (.not x))
  | constantTest {negated : Bool} {v : Value} : Redex arguments (.isNull negated (.val v))
  | nullCastTest {negated : Bool} {x : Expr} {ty : Ty} (h : x.infer arguments = .null) :
      Redex arguments (.isNull negated (.cast x ty))
  | decidedCase {whens : List (When Expr)} {otherwise : Option Expr} {ty : Option Ty}
      (h : Decided whens) : Redex arguments (.case whens otherwise ty)
  | constant {e : Expr} {v : Value} (hvalue : e.isValue = false) (hconst : e.isConst = true)
      (h : e.evalConst = .ok v) : Redex arguments e

section Conditions

theorem decision?_eq_none_iff {c : Expr} (hconst : c.isConst = true) :
    decision? c = none ↔ ∃ err, c.evalConst.bind Value.truth = .error err := by
  rw [decision?, if_pos hconst]
  cases c.evalConst.bind Value.truth with
  | ok truth => simp
  | error err => simp

theorem not_decided_of_undecided {whens : List (When Expr)} (h : Undecided whens) :
    ¬ Decided whens := by
  induction whens with
  | nil =>
      obtain ⟨w, ws, hdrop, -⟩ := h
      cases hdrop
  | cons w ws ih =>
      rintro ⟨hconst, hselected | ⟨hskipped, hrest⟩⟩
      · have hw : decision? w.condition = some true :=
          decision?_eq_some_iff.mpr ⟨hconst, some true, hselected, rfl⟩
        obtain ⟨u, us, hdrop, hnone⟩ := h
        rw [List.dropWhile_cons_of_neg (by simp [neverSelected, hw]), List.cons.injEq] at hdrop
        rw [← hdrop.1, hw] at hnone
        cases hnone
      · have hw : decision? w.condition = some false := by
          rcases hskipped with hfalse | hnull
          · exact decision?_eq_some_iff.mpr ⟨hconst, some false, hfalse, rfl⟩
          · exact decision?_eq_some_iff.mpr ⟨hconst, none, hnull, rfl⟩
        obtain ⟨u, us, hdrop, hnone⟩ := h
        rw [List.dropWhile_cons_of_pos (by simp [neverSelected, hw])] at hdrop
        exact ih ⟨u, us, hdrop, hnone⟩ hrest

/-- A constant CASE of which no branch is decided fails at the condition that is not. -/
theorem evalConst_of_undecided {whens : List (When Expr)} {otherwise : Option Expr}
    {ty : Option Ty} (hconst : (Expr.case whens otherwise ty).isConst = true)
    (h : Undecided whens) (v : Value) : (Expr.case whens otherwise ty).evalConst ≠ .ok v := by
  intro hv
  obtain ⟨w, ws, hdrop, hnone⟩ := h
  have hw : w ∈ whens := by
    apply (List.dropWhile_sublist neverSelected).subset
    rw [hdrop]
    exact List.mem_cons_self
  have hcondition : w.condition.isConst = true :=
    Expr.isConst_of_child hconst (Expr.condition_mem_children hw)
  obtain ⟨err, herr⟩ := (decision?_eq_none_iff hcondition).mp hnone
  rw [Expr.evalConst, Expr.eval_case] at hv
  obtain ⟨chosen, hchosen, -⟩ := Outcome.result_bind_ok.mp hv
  obtain ⟨choice, hchoice, -⟩ := Outcome.result_bind_ok.mp hchosen
  rw [← evalWhens_dropWhile, hdrop] at hchoice
  change (w.condition.eval Input.empty >>= _).result = _ at hchoice
  obtain ⟨c, hc, hchoice⟩ := Outcome.result_bind_ok.mp hchoice
  obtain ⟨truth, htruth, -⟩ := Outcome.result_bind_ok.mp hchoice
  rw [Outcome.result_ofResult] at htruth
  rw [Expr.evalConst, hc] at herr
  cases htruth.symm.trans herr

end Conditions

section Settled

variable {arguments : List Ty}

private theorem settled_connective {connective : List Expr → Expr} {xs : List Expr}
    (hc : IsConnective connective) (h : Settled arguments (connective xs)) :
    2 ≤ xs.length ∧ OperandsSuit connective xs := by
  cases hc with
  | and | or => exact ⟨h.1.1, h.2⟩

theorem evalConst_of_settled {e : Expr} (h : Settled arguments e) (hvalue : e.isValue = false)
    (hconst : e.isConst = true) (v : Value) : e.evalConst ≠ .ok v := by
  obtain ⟨⟨-, hcase | hfold⟩, hsuited⟩ := h
  · cases e with
    | case whens otherwise ty => exact evalConst_of_undecided hconst hsuited v
    | _ => cases hcase
  · rcases hfold with hv | hinput | ⟨err, herr⟩
    · rw [hvalue] at hv
      cases hv
    · rw [hconst] at hinput
      cases hinput
    · rw [herr]
      exact nofun

/-- A settled node has none of the forms that simplification removes. -/
theorem not_redex_of_settled {e : Expr} (h : Settled arguments e) : ¬ Redex arguments e := by
  intro hredex
  cases hredex with
  | fewOperands hc hfew =>
      have := (settled_connective hc h).1
      omega
  | sameConnective hc hmem => exact ((settled_connective hc h).2 _ hmem).1 _ rfl
  | @truthOperand connective xs b hc hmem =>
      have htruth := ((settled_connective hc h).2 _ hmem).2 b
      simp [Expr.isTruth] at htruth
  | nullOperand hnull =>
      obtain ⟨hl, hr, -⟩ := h.2
      rcases hnull with rfl | rfl
      · cases hl
      · cases hr
  | constantLeft hr =>
      have hright := h.2.2.2 rfl
      rw [hr] at hright
      cases hright
  | indeterminateCast hty =>
      have hconcrete := h.1.1.1
      rw [hty] at hconcrete
      cases hconcrete
  | sameCast => exact h.1.1.2 rfl
  | doubleNegation => cases h.2
  | @constantTest negated v =>
      have hvalue : (Expr.isNull negated (.val v)).evalConst = .ok (.bool (v.isNull != negated)) :=
        rfl
      exact evalConst_of_settled h rfl rfl _ hvalue
  | nullCastTest hnull => exact h.2 _ _ rfl hnull
  | decidedCase hdecided => exact not_decided_of_undecided h.2 hdecided
  | constant hvalue hconst hv => exact evalConst_of_settled h hvalue hconst _ hv

end Settled

end Simplify

/-- No node of a simplified expression is one that simplification would change. -/
theorem Expr.simplify_irreducible (arguments : List Ty) (e : Expr) :
    Everywhere (fun x => ¬ Simplify.Redex arguments x) (e.simplify arguments) :=
  fun x hx => Simplify.not_redex_of_settled (simplify_settled arguments e x hx)

end QueryExpr
