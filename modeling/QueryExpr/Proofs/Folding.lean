import QueryExpr.Proofs.Irreducible
import QueryExpr.Proofs.Preservation

/-!
# Folding of constants

A constant expression that has a value is simplified to that value. No typing is needed: wherever
the rule of simplification relies on an inferred type, the operand is a literal already or fails
with and without the rule, and operands that the evaluation never reaches do not matter to it.
-/

namespace QueryExpr

open QueryExpr.Expr

namespace Simplify

variable {arguments : List Ty}

theorem eq_val_of_settled {e : Expr} {v : Value} (h : Settled arguments e)
    (hconst : e.isConst = true) (hv : e.evalConst = .ok v) : e = .val v := by
  cases e with
  | val w =>
      cases hv
      rfl
  | _ => exact absurd hv (evalConst_of_settled h rfl hconst v)

/-- A part that simplification has dealt with and that needs no input. -/
def SettledConstant (arguments : List Ty) (e : Expr) : Prop :=
  Settled arguments e ∧ e.isConst = true

/-- What is left of a constant is a literal or fails. -/
theorem SettledConstant.cases {e : Expr} (h : SettledConstant arguments e) :
    (∃ v, e = .val v) ∨ e.isValue = false ∧ ∃ err, e.evalConst = .error err := by
  cases hresult : e.evalConst with
  | ok v => exact Or.inl ⟨v, eq_val_of_settled h.1 h.2 hresult⟩
  | error err =>
      refine Or.inr ⟨?_, err, rfl⟩
      cases e with
      | val v => cases hresult
      | _ => rfl

theorem settledConstant_child {x y : Expr} (hy : y ∈ x.children)
    (hx : Everywhere (Settled arguments) x) (hconst : x.isConst = true) :
    SettledConstant arguments y :=
  ⟨hx y (child_mem_subterms hy), isConst_of_child hconst hy⟩

theorem evalConst_of_part {e x : Expr} {f : Value → Outcome Value} {err : Error}
    (he : e.eval Input.empty = x.eval Input.empty >>= f) (h : x.evalConst = .error err) :
    e.evalConst = .error err := by
  rw [evalConst, he, Outcome.bind_of_error h]

private theorem convert_of_same {v : Value} {ty : Ty}
    (h : (ty.isIndeterminate || (Expr.val v).infer arguments == ty) = true) :
    ty.convert v = .ok v := by
  rcases Bool.or_eq_true_iff.mp h with hty | hty
  · exact Ty.convert_of_isIndeterminate hty v
  · exact Ty.convert_of_ty_eq (beq_iff_eq.mp hty)

private theorem convert_of_castCannotFail {v : Value} {ty : Ty}
    (h : castCannotFail arguments (.val v) ty = true) : ty.convert v = .ok v := by
  rcases Bool.or_eq_true_iff.mp h with hsame | hnull
  · exact convert_of_same hsame
  · rw [Value.ty_eq_null_iff.mp (beq_iff_eq.mp hnull)]
    exact Ty.convert_null ty

theorem evalConst_castOperand {x : Expr} {ty : Ty} (hx : SettledConstant arguments x) :
    (castOperand arguments x ty).evalConst = (Expr.cast x ty).evalConst := by
  unfold castOperand
  split
  · rename_i hsame
    rcases hx.cases with ⟨v, rfl⟩ | ⟨-, err, herr⟩
    · exact (convert_of_same hsame).symm
    · rw [herr, evalConst_of_part (e := .cast x ty) rfl herr]
  · rfl

theorem evalConst_testNull {negated : Bool} {x : Expr}
    (hx : Everywhere (Settled arguments) x) (hconst : x.isConst = true) :
    (testNull arguments negated x).evalConst = (Expr.isNull negated x).evalConst := by
  unfold testNull
  split
  · rename_i y ty
    split
    · rename_i hsafe
      have hy := settledConstant_child (List.mem_singleton_self y) hx hconst
      rcases hy.cases with ⟨v, rfl⟩ | ⟨-, err, herr⟩
      · have hcast : (Expr.cast (.val v) ty).eval Input.empty = (Expr.val v).eval Input.empty := by
          change Outcome.ofResult (ty.convert v) = _
          rw [convert_of_castCannotFail hsafe]
          rfl
        have htest : (Expr.isNull negated (.cast (.val v) ty)).eval Input.empty =
            (Expr.isNull negated (.val v)).eval Input.empty := by
          change (Expr.cast (.val v) ty).eval Input.empty >>= _ = _
          rw [hcast]
          rfl
        rw [evalConst, evalConst, htest]
      · have hcast : (Expr.cast y ty).evalConst = .error err := evalConst_of_part rfl herr
        rw [evalConst_of_part (e := .isNull negated y) rfl herr,
          evalConst_of_part (e := .isNull negated (.cast y ty)) rfl hcast]
    · rfl
  · rfl
  · rfl

theorem evalConst_foldCase {whens : List (When Expr)} {otherwise : Option Expr}
    (hconst : (Expr.case whens otherwise none).isConst = true)
    (hsuited : Suited arguments (foldCase arguments whens otherwise)) :
    (foldCase arguments whens otherwise).evalConst =
      (Expr.case whens otherwise none).evalConst := by
  have huntyped : (Expr.case whens otherwise none).eval Input.empty =
      evalBranches Input.empty whens otherwise := eval_case_none Input.empty whens otherwise
  rcases eval_foldCase Input.empty arguments whens otherwise with hstays | heval
  · rw [hstays] at hsuited ⊢
    cases hbranches : (evalBranches Input.empty whens otherwise).result with
    | ok v =>
        have hvalue : (Expr.case whens otherwise none).evalConst = .ok v := by
          rw [evalConst, huntyped, hbranches]
        exact absurd hvalue (evalConst_of_undecided hconst hsuited v)
    | error err =>
        rw [evalConst, evalConst, huntyped, eval_case, Outcome.bind_of_error hbranches, hbranches]
  · rw [evalConst, heval, evalConst, huntyped]

/-- The rule of simplification keeps the value of a constant node whose parts are settled. -/
theorem evalConst_node {e : Expr} {v : Value}
    (hparts : ∀ x ∈ e.children, Everywhere (Settled arguments) x) (hconst : e.isConst = true)
    (huntyped : ∀ whens otherwise ty, e = .case whens otherwise (some ty) → False)
    (h : e.evalConst = .ok v) : (node arguments e).evalConst = .ok v := by
  have hpart : ∀ x ∈ e.children, SettledConstant arguments x := fun x hx =>
    ⟨hparts x hx x x.self_mem_subterms, isConst_of_child hconst hx⟩
  have hfold : ∀ {y : Expr}, y.evalConst = .ok v → (foldConst y).evalConst = .ok v := by
    intro y hy
    rw [evalConst, eval_foldConst]
    exact hy
  cases e with
  | val | arg | col => exact h
  | and xs =>
      apply hfold
      refine (connect_refinedBy (fun _ => rfl) _ v ?_).1
      rwa [evalOperands_flatMap eval_conjuncts]
  | or xs =>
      apply hfold
      refine (connect_refinedBy (fun _ => rfl) _ v ?_).1
      rwa [evalOperands_flatMap eval_disjuncts]
  | cmp op l r => exact hfold (compareOperands_refinedBy op l r v h).1
  | case whens otherwise ty =>
      cases ty with
      | some ty => exact (huntyped whens otherwise ty rfl).elim
      | none => exact (evalConst_foldCase hconst (suited_node hparts)).trans h
  | cast x ty =>
      exact hfold ((evalConst_castOperand (hpart x (List.mem_singleton_self x))).trans h)
  | isNull negated x =>
      have hx := List.mem_singleton_self x
      exact hfold ((evalConst_testNull (hparts x hx) (hpart x hx).2).trans h)
  | not x =>
      rcases (hpart x (List.mem_singleton_self x)).cases with ⟨w, rfl⟩ | ⟨-, err, herr⟩
      · exact hfold h
      · cases h.symm.trans (evalConst_of_part (e := .not x) rfl herr)

end Simplify

namespace Expr

/-- At a CASE: no type is stored. -/
def Untyped : Expr → Prop
  | case _ _ ty => ty = none
  | _ => True

instance : DecidablePred Untyped
  | case _ _ ty => inferInstanceAs (Decidable (ty = none))
  | val _ | arg _ | col _ _ | and _ | or _ | cmp _ _ _ | cast _ _ | isNull _ _ | not _ =>
      inferInstanceAs (Decidable True)

variable {arguments : List Ty}

theorem isConst_iff_everywhere {e : Expr} :
    e.isConst = true ↔ Everywhere (fun x => x.lookup? = none) e := by
  rw [isConst_iff, occurrences, List.filterMap_eq_nil_iff]
  rfl

theorem isConst_simplify {e : Expr} (h : e.isConst = true) :
    (e.simplify arguments).isConst = true := by
  rw [isConst_iff_everywhere] at h ⊢
  exact simplify_leaves arguments (fun _ => id) h

theorem isConst_mapChildren {f : Expr → Expr} {e : Expr} (h : e.isConst = true)
    (hparts : ∀ x ∈ e.children, (f x).isConst = true) : (e.mapChildren f).isConst = true := by
  rw [isConst_iff_everywhere, everywhere_iff, children_mapChildren]
  refine ⟨?_, fun z hz => ?_⟩
  · have hleaf := (everywhere_iff.mp (isConst_iff_everywhere.mp h)).1
    cases e with
    | arg | col => exact hleaf
    | _ => rfl
  · obtain ⟨x, hx, rfl⟩ := List.mem_map.mp hz
    exact isConst_iff_everywhere.mp (hparts x hx)

theorem settled_mapChildren {e z : Expr}
    (hz : z ∈ (e.mapChildren (simplify arguments)).children) :
    Everywhere (Simplify.Settled arguments) z := by
  rw [children_mapChildren] at hz
  obtain ⟨x, -, rfl⟩ := List.mem_map.mp hz
  exact simplify_settled arguments x

theorem isConst_mapChildren_simplify {e : Expr} (h : e.isConst = true) :
    (e.mapChildren (simplify arguments)).isConst = true :=
  isConst_mapChildren h fun _ hx => isConst_simplify (isConst_of_child h hx)

theorem evalConst_simplify {e : Expr} {v : Value} (hconst : e.isConst = true)
    (huntyped : Everywhere Untyped e) (h : e.evalConst = .ok v) :
    (e.simplify arguments).evalConst = .ok v := by
  induction e using induct generalizing v with
  | node e ih =>
      obtain ⟨hnode, hparts⟩ := everywhere_iff.mp huntyped
      have hpart : ∀ x ∈ e.children, (x.eval Input.empty).RefinedBy
          ((x.simplify arguments).eval Input.empty) := by
        intro x hx w hw
        have hxconst := isConst_of_child hconst hx
        have hsame := ih x hx hxconst (hparts x hx) hw
        rw [eval_of_isConst hxconst, eval_of_isConst (isConst_simplify hxconst)]
        exact ⟨hsame, List.Sublist.refl _⟩
      have hmapped : (e.mapChildren (simplify arguments)).evalConst = .ok v :=
        (eval_mapChildren_same Outcome.congruence_refinedBy hpart v h).1
      rw [simplify_eq]
      apply Simplify.evalConst_node (fun _ => settled_mapChildren)
        (isConst_mapChildren_simplify hconst) ?_ hmapped
      intro whens otherwise ty hcase
      cases e with
      | case whens' otherwise' ty' =>
          rw [mapChildren, show ty' = none from hnode] at hcase
          cases hcase
      | _ => cases hcase

/-- A constant that has a value is simplified to the value. -/
theorem simplify_of_evalConst {e : Expr} {v : Value} (hconst : e.isConst = true)
    (huntyped : Everywhere Untyped e) (h : e.evalConst = .ok v) :
    e.simplify arguments = val v :=
  Simplify.eq_val_of_settled (simplify_settled arguments e _ (self_mem_subterms _))
    (isConst_simplify hconst) (evalConst_simplify hconst huntyped h)

/-- A false operand behind a null, in front of a comparison that would fail. -/
def shortConjunction : Expr :=
  and [val .null, val (.bool false), cmp .eq (val (.string "a")) (val (.i64 1))]

/-- A condition over a cast, and an ELSE that is no truth value. -/
def decidedChoice : Expr :=
  case [⟨not (isNull false (cast (val (.string " 12")) .i64)),
    cmp .lt (cast (val (.string "12")) .i32) (val (.f64 Double.one))⟩]
    (some (not (val (.string "x")))) none

theorem simplify_of_evalConst_choice :
    let e := or [shortConjunction, not decidedChoice]
    e.isConst = true ∧ Everywhere Untyped e ∧ e.evalConst = .ok (.bool true) ∧
      e.simplify [] = val (.bool true) :=
  ⟨rfl, by decide, rfl, simplify_of_evalConst rfl (by decide) rfl⟩

end Expr

end QueryExpr
