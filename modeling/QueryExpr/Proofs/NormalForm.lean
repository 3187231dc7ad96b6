import QueryExpr.Proofs.Rewriting

/-!
# Normal form

Simplification leaves nodes that suit their parts: a connective holds neither a truth value nor the
same connective, a constant is not compared from the left, and no branch of a CASE is known to be
the one that is selected. The rule of simplification keeps such a node as it is, so simplifying an
expression once more changes nothing.
-/

namespace QueryExpr

namespace Simplify

/-- Behind the branches that are never selected stands one of which nothing is known. -/
def Undecided (whens : List (When Expr)) : Prop :=
  ∃ w ws, whens.dropWhile neverSelected = w :: ws ∧
    decision? w.condition = none

/-- None of the operands is the same connective or a truth value. -/
def OperandsSuit (connective : List Expr → Expr) (operands : List Expr) : Prop :=
  ∀ x ∈ operands, (∀ xs, x ≠ connective xs) ∧ ∀ b, x.isTruth b = false

/-- The rule has nothing to do because of what the parts of the node are. -/
def Suited (arguments : List Ty) : Expr → Prop
  | .and xs => OperandsSuit .and xs
  | .or xs => OperandsSuit .or xs
  | .cmp _ l r => l.isNullValue = false ∧ r.isNullValue = false ∧
      (l.isValue = true → r.isValue = true)
  | .isNull _ x => ∀ y ty, x = .cast y ty → y.infer arguments ≠ .null
  | .not x => x.isNot = false
  | .case whens _ _ => Undecided whens
  | _ => True

/-- A node that the rule of simplification keeps. -/
def Settled (arguments : List Ty) (e : Expr) : Prop := Reduced arguments e ∧ Suited arguments e

theorem foldConst_of_unfoldable {e : Expr} (h : Unfoldable e) : foldConst e = e := by
  unfold foldConst
  rcases h with hvalue | hinput | ⟨err, hfails⟩
  · cases e with
    | val v => split <;> rfl
    | _ => cases hvalue
  · rw [hinput]
    rfl
  · split
    · rw [hfails]
    · rfl

section Suited

variable {arguments : List Ty}

private theorem suited_foldConst {e : Expr} (h : Suited arguments e) :
    Suited arguments (foldConst e) := by
  rcases foldConst_cases e with ⟨v, hv, -, -⟩ | ⟨hkeep, -⟩
  · rw [hv]
    trivial
  · rwa [hkeep]

private theorem ne_connective {connective : List Expr → Expr} {parts : Expr → List Expr}
    (hs : Splits connective parts)
    (hnode : ∀ xs, Suited arguments (connective xs) = OperandsSuit connective xs) {x z : Expr}
    (hx : Suited arguments x) (hz : z ∈ parts x) (xs : List Expr) : z ≠ connective xs := by
  by_cases hsplit : ∃ ys, x = connective ys
  · obtain ⟨ys, rfl⟩ := hsplit
    rw [hnode] at hx
    rw [hs.same] at hz
    exact (hx z hz).1 xs
  · rw [hs.other (not_exists.mp hsplit), List.mem_singleton] at hz
    rw [hz]
    exact not_exists.mp hsplit xs

private theorem suited_connect (decisive : Bool) {connective : List Expr → Expr}
    {parts : Expr → List Expr} (hs : Splits connective parts)
    (hnode : ∀ xs, Suited arguments (connective xs) = OperandsSuit connective xs)
    {xs : List Expr} (h : ∀ x ∈ xs, Expr.Everywhere (Settled arguments) x) :
    Suited arguments (connect decisive connective (xs.flatMap parts)) := by
  unfold connect
  split
  · trivial
  · rename_i hdecisive
    rw [Bool.not_eq_true, List.any_eq_false] at hdecisive
    split
    · trivial
    · rename_i z hz
      have hkept : z ∈ (xs.flatMap parts).filter fun x => !x.isTruth (!decisive) := by
        rw [hz]
        exact List.mem_singleton_self z
      obtain ⟨x, hx, hzx⟩ := List.mem_flatMap.mp (List.mem_filter.mp hkept).1
      exact (h x hx z (hs.mem_subterms hzx)).2
    · rw [hnode]
      intro z hz
      obtain ⟨hmem, hother⟩ := List.mem_filter.mp hz
      obtain ⟨x, hx, hzx⟩ := List.mem_flatMap.mp hmem
      refine ⟨ne_connective hs hnode (h x hx x x.self_mem_subterms).2 hzx, fun b => ?_⟩
      by_cases hb : b = decisive
      · rw [hb]
        simpa using hdecisive z hmem
      · rw [Bool.eq_not.mpr hb]
        simpa using hother

private theorem suited_compareOperands (op : Comparison) (l r : Expr) :
    Suited arguments (compareOperands op l r) := by
  unfold compareOperands
  split
  · trivial
  · rename_i hnull
    rw [Bool.not_eq_true, Bool.or_eq_false_iff] at hnull
    obtain ⟨hl, hr⟩ := hnull
    split
    · rename_i hswap
      rw [Bool.and_eq_true, Bool.not_eq_true'] at hswap
      refine ⟨hr, hl, fun hvalue => ?_⟩
      rw [hswap.2] at hvalue
      cases hvalue
    · rename_i hswap
      refine ⟨hl, hr, fun hvalue => ?_⟩
      simpa [hvalue] using hswap

/-- A cast below a test for null that could not be dropped has an operand that says something. -/
private theorem suited_testNull {negated : Bool} {x : Expr}
    (hx : Expr.Everywhere (Settled arguments) x) :
    Suited arguments (testNull arguments negated x) := by
  unfold testNull
  split
  · rename_i y ty
    split
    · -- Only the null of the operand makes this cast safe, and no cast infers null.
      intro z ty' hy hnull
      subst hy
      obtain ⟨⟨⟨hty, -⟩, -⟩, -⟩ : Settled arguments (.cast z ty') :=
        hx _ (Expr.child_mem_subterms (List.mem_singleton_self _))
      obtain ⟨⟨⟨hother, hdiffer⟩, -⟩, -⟩ : Settled arguments (.cast (.cast z ty') ty) :=
        hx _ (Expr.self_mem_subterms _)
      rename_i hsafe
      simp only [castCannotFail, hother, Bool.false_or, Bool.or_eq_true, beq_iff_eq] at hsafe
      rcases hsafe with hsame | hnever
      · exact hdiffer hsame
      · rw [Expr.infer] at hnever
        rw [hnever] at hty
        cases hty
    · rename_i hsafe
      intro z ty' hz hnull
      cases hz
      simp [castCannotFail, hnull] at hsafe
  · trivial
  · rename_i hcast _
    intro y ty hy
    exact absurd hy (hcast y ty)

private theorem suited_foldCase {whens : List (When Expr)} {otherwise : Option Expr}
    (h : ∀ x ∈ Expr.results whens otherwise, Suited arguments x) :
    Suited arguments (foldCase arguments whens otherwise) := by
  unfold foldCase
  split
  · cases otherwise with
    | none => trivial
    | some x => exact h x (Expr.otherwise_mem_results rfl)
  · rename_i w ws hdrop
    split
    · have hw : w ∈ whens := by
        apply (List.dropWhile_sublist neverSelected).subset
        rw [hdrop]
        exact List.mem_cons_self
      exact h _ (Expr.result_mem_results hw)
    · rename_i htrue
      refine ⟨w, ws, hdrop, ?_⟩
      have hfalse : (decision? w.condition == some false) = false := by
        have := List.head?_dropWhile_not neverSelected whens
        rw [hdrop] at this
        simpa [neverSelected] using this
      cases hd : decision? w.condition with
      | none => rfl
      | some b => cases b <;> simp [hd] at htrue hfalse

theorem suited_node {e : Expr} (h : ∀ x ∈ e.children, Expr.Everywhere (Settled arguments) x) :
    Suited arguments (node arguments e) := by
  have hroot : ∀ x ∈ e.children, Suited arguments x := fun x hx => (h x hx x x.self_mem_subterms).2
  cases e with
  | val | arg | col => trivial
  | and xs => exact suited_foldConst (suited_connect false splits_conjuncts (fun _ => rfl) h)
  | or xs => exact suited_foldConst (suited_connect true splits_disjuncts (fun _ => rfl) h)
  | cmp op l r => exact suited_foldConst (suited_compareOperands op l r)
  | case whens otherwise ty =>
      exact suited_foldCase fun x hx => hroot x (Expr.mem_children_of_mem_results hx)
  | cast x ty =>
      apply suited_foldConst
      unfold castOperand
      split
      · exact hroot x (List.mem_singleton_self x)
      · trivial
  | isNull negated x =>
      exact suited_foldConst (suited_testNull (h x (List.mem_singleton_self x)))
  | not x =>
      apply suited_foldConst
      unfold negate
      split
      · rename_i y
        have hbelow : y ∈ (Expr.not y).subterms :=
          Expr.child_mem_subterms (List.mem_singleton_self y)
        exact (h _ (List.mem_singleton_self _) y hbelow).2
      · rename_i hnot
        change x.isNot = false
        cases x with
        | not y => exact absurd rfl (hnot y)
        | _ => rfl

end Suited

section Fixed

variable {arguments : List Ty}

private theorem connect_of_suited (decisive : Bool) {connective : List Expr → Expr}
    {parts : Expr → List Expr} (hs : Splits connective parts) {xs : List Expr}
    (hlength : 2 ≤ xs.length) (h : OperandsSuit connective xs) :
    connect decisive connective (xs.flatMap parts) = connective xs := by
  have hflat : xs.flatMap parts = xs := hs.flatMap_eq_self fun x hx => (h x hx).1
  have hany : xs.any (Expr.isTruth decisive) = false := by
    rw [List.any_eq_false]
    intro x hx
    simp [(h x hx).2]
  have hfilter : xs.filter (fun x => !x.isTruth (!decisive)) = xs := by
    rw [List.filter_eq_self]
    intro x hx
    simp [(h x hx).2]
  rw [hflat, connect, hany, hfilter]
  match xs, hlength with
  | _ :: _ :: _, _ => rfl

theorem node_of_settled {e : Expr} (h : Expr.Everywhere (Settled arguments) e) :
    node arguments e = e := by
  obtain ⟨⟨⟨hshaped, hfold⟩, hsuited⟩, hparts⟩ := Expr.everywhere_iff.mp h
  have hkeep : e.isCase = false → foldConst e = e := fun hcase =>
    foldConst_of_unfoldable (hfold.resolve_left (by simp [hcase]))
  cases e with
  | val | arg | col => rfl
  | and xs =>
      rw [node_eq_rule rfl, rule, connect_of_suited false splits_conjuncts hshaped hsuited]
      exact hkeep rfl
  | or xs =>
      rw [node_eq_rule rfl, rule, connect_of_suited true splits_disjuncts hshaped hsuited]
      exact hkeep rfl
  | cmp op l r =>
      obtain ⟨hl, hr, hside⟩ := hsuited
      have hswap : (l.isValue && !r.isValue) = false := by
        cases hvalue : l.isValue with
        | false => rfl
        | true => simp [hside hvalue]
      rw [node_eq_rule rfl, rule, compareOperands, hl, hr, hswap]
      exact hkeep rfl
  | case whens otherwise ty =>
      obtain ⟨w, ws, hdrop, hnone⟩ := hsuited
      rw [node, foldCase, hdrop]
      simp only [hnone, reduceCtorEq, if_false]
      rw [← show ty = _ from hshaped]
  | cast x ty =>
      obtain ⟨hty, hdiffer⟩ := hshaped
      rw [node_eq_rule rfl, rule, castOperand, hty, Bool.false_or, if_neg (by simpa using hdiffer)]
      exact hkeep rfl
  | isNull negated x =>
      have hx := hparts x (List.mem_singleton_self x)
      have htest : testNull arguments negated x = .isNull negated x := by
        cases x with
        | val v =>
            have hvalue : (Expr.isNull negated (.val v)).evalConst =
                .ok (.bool (v.isNull != negated)) := rfl
            rcases hfold.resolve_left (by simp [Expr.isCase]) with hv | hconst | ⟨err, herr⟩
            · cases hv
            · cases hconst
            · rw [hvalue] at herr
              cases herr
        | cast y ty =>
            obtain ⟨⟨⟨hty, hdiffer⟩, -⟩, -⟩ := hx _ (Expr.self_mem_subterms _)
            have hnull := hsuited y ty rfl
            have hfails : castCannotFail arguments y ty = false := by
              simp [castCannotFail, hty, hdiffer, hnull]
            rw [testNull, hfails]
            rfl
        | _ => rfl
      rw [node_eq_rule rfl, rule, htest]
      exact hkeep rfl
  | not x =>
      have hnegate : negate x = .not x := by
        unfold negate
        split
        · cases hsuited
        · rfl
      rw [node_eq_rule rfl, rule, hnegate]
      exact hkeep rfl

end Fixed

end Simplify

namespace Expr

variable (arguments : List Ty)

/-- Every node of a simplified expression is settled. -/
theorem simplify_settled (e : Expr) :
    Everywhere (Simplify.Settled arguments) (e.simplify arguments) := by
  apply everywhere_simplify
  intro e hparts
  have hreduced : ∀ x ∈ e.children, Everywhere (Simplify.Reduced arguments) x :=
    fun x hx y hy => (hparts x hx y hy).1
  exact ⟨Simplify.reduced_node hreduced, Simplify.suited_node hparts⟩

theorem simplify_of_settled {e : Expr} (h : Everywhere (Simplify.Settled arguments) e) :
    e.simplify arguments = e := by
  rw [simplify_eq_rebuild]
  exact rebuild_of_everywhere fun _ hx => Simplify.node_of_settled (h.of_subterm hx)

/-- Simplifying once is enough. -/
theorem simplify_simplify (e : Expr) :
    (e.simplify arguments).simplify arguments = e.simplify arguments :=
  simplify_of_settled arguments (simplify_settled arguments e)

end Expr

end QueryExpr
