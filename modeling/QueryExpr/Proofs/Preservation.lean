import QueryExpr.Proofs.Branches
import QueryExpr.Proofs.Comparison
import QueryExpr.Proofs.Rewriting
import QueryExpr.Proofs.WellTyped

/-!
# Simplification preserves evaluation

Every local rule keeps the type of a typed node, and wherever the node has a value the result has
the same one and looks up no more. A traversal from the leaves to the root hands this on to whole
expressions.
-/

namespace QueryExpr

open QueryExpr.Expr

namespace Simplify

variable {arguments : List Ty} {input : Input}

theorem eval_foldConst (e : Expr) : (foldConst e).eval input = e.eval input := by
  rcases foldConst_cases e with ⟨v, hv, hconst, heval⟩ | ⟨hkeep, -⟩
  · rw [hv, eval_of_isConst hconst, heval]
    rfl
  · rw [hkeep]

private theorem respectedBy_empty (e : Expr) : RespectedBy arguments Input.empty e := by
  intro x _
  cases x <;> simp [Answered, Input.empty]

private theorem hasType_value {e : Expr} {t : Ty} {v : Value} (h : HasType arguments e t)
    (hconst : e.isConst = true) (hv : e.evalConst = .ok v) : HasType arguments (.val v) t := by
  rcases h.fits (respectedBy_empty e) hv with hnull | hty | rfl
  · exact .val (Or.inl hnull)
  · exact .val (Or.inr hty)
  · cases h with
    | val h =>
        cases hv
        exact .val h
    | arg | col =>
        rw [isConst_eq] at hconst
        simp at hconst
    | case ht | caseNull ht | cast ht => simp [Ty.isIndeterminate] at ht

theorem hasType_foldConst {e : Expr} {t : Ty} (h : HasType arguments e t) :
    HasType arguments (foldConst e) t := by
  rcases foldConst_cases e with ⟨v, hv, hconst, heval⟩ | ⟨hkeep, -⟩
  · rw [hv]
    exact hasType_value h hconst heval
  · rwa [hkeep]

section Connectives

variable {decisive : Bool} {connective : List Expr → Expr}

theorem evalOperands_flatMap {parts : Expr → List Expr}
    (hparts : ∀ x, parts x = [x] ∨ x.eval input = evalOperands input decisive false (parts x))
    (sawNull : Bool) (xs : List Expr) :
    evalOperands input decisive sawNull (xs.flatMap parts) =
      evalOperands input decisive sawNull xs := by
  induction xs generalizing sawNull with
  | nil => rfl
  | cons x xs ih =>
      have hsplice : evalOperands input decisive sawNull (parts x ++ xs) =
          evalOperands input decisive sawNull (x :: xs) := by
        rcases hparts x with h | h
        · rw [h, List.singleton_append]
        · exact (evalOperands_splice input decisive h sawNull xs).symm
      rw [List.flatMap_cons, ← hsplice, evalOperands_append, evalOperands_append]
      simp only [ih]

theorem connect_refinedBy (hconnective : ∀ ys,
      (connective ys).eval input = evalOperands input decisive false ys) (operands : List Expr) :
    (evalOperands input decisive false operands).RefinedBy
      ((connect decisive connective operands).eval input) := by
  unfold connect
  split
  · rename_i hany
    apply Outcome.RefinedBy.pure
    intro v hv
    obtain ⟨x, hx, htruth⟩ := List.any_eq_true.mp hany
    exact evalOperands_decided input decisive (eq_of_isTruth htruth ▸ hx) hv
  · rw [← evalOperands_filter]
    split
    · rename_i hnil
      rw [hnil]
      exact .refl _
    · rename_i y hone
      rw [hone]
      exact evalOperands_singleton input decisive y
    · rw [hconnective]
      exact .refl _

private theorem hasType_connect (hconnective : ∀ ys, (∀ y ∈ ys, HasType arguments y .bool) →
      HasType arguments (connective ys) .bool) {operands : List Expr}
    (h : ∀ x ∈ operands, HasType arguments x .bool) :
    HasType arguments (connect decisive connective operands) .bool := by
  unfold connect
  split
  · exact .val (Or.inr rfl)
  · have hkept : ∀ x ∈ operands.filter (fun x => !x.isTruth (!decisive)),
        HasType arguments x .bool := fun x hx => h x (List.mem_filter.mp hx).1
    split
    · exact .val (Or.inr rfl)
    · rename_i y hone
      exact hkept y (by simp [hone])
    · exact hconnective _ hkept

private theorem connect_flatMap_refinedBy {parts : Expr → List Expr}
    (hconnective : ∀ ys, (connective ys).eval input = evalOperands input decisive false ys)
    (hparts : ∀ x, parts x = [x] ∨ x.eval input = evalOperands input decisive false (parts x))
    (xs : List Expr) :
    ((connective xs).eval input).RefinedBy
      ((connect decisive connective (xs.flatMap parts)).eval input) := by
  rw [hconnective, ← evalOperands_flatMap hparts]
  exact connect_refinedBy hconnective _

private theorem hasType_connect_flatMap {parts : Expr → List Expr} {xs : List Expr}
    (hconnective : ∀ ys, (∀ y ∈ ys, HasType arguments y .bool) →
      HasType arguments (connective ys) .bool)
    (hparts : ∀ {x y}, HasType arguments x .bool → y ∈ parts x → HasType arguments y .bool)
    (hxs : ∀ x ∈ xs, HasType arguments x .bool) :
    HasType arguments (connect decisive connective (xs.flatMap parts)) .bool := by
  apply hasType_connect hconnective
  intro y hy
  obtain ⟨x, hx, hyx⟩ := List.mem_flatMap.mp hy
  exact hparts (hxs x hx) hyx

end Connectives

private theorem hasType_conjuncts {x y : Expr} (h : HasType arguments x .bool)
    (hy : y ∈ conjuncts x) : HasType arguments y .bool := by
  unfold conjuncts at hy
  split at hy
  · cases h with
    | and hxs => exact hxs y hy
  · rw [List.mem_singleton.mp hy]
    exact h

private theorem hasType_disjuncts {x y : Expr} (h : HasType arguments x .bool)
    (hy : y ∈ disjuncts x) : HasType arguments y .bool := by
  unfold disjuncts at hy
  split at hy
  · cases h with
    | or hxs => exact hxs y hy
  · rw [List.mem_singleton.mp hy]
    exact h

theorem eval_conjuncts (x : Expr) :
    conjuncts x = [x] ∨ x.eval input = evalOperands input false false (conjuncts x) := by
  cases x <;> first | exact Or.inl rfl | exact Or.inr rfl

theorem eval_disjuncts (x : Expr) :
    disjuncts x = [x] ∨ x.eval input = evalOperands input true false (disjuncts x) := by
  cases x <;> first | exact Or.inl rfl | exact Or.inr rfl

private theorem isNull_of_isNullValue {x : Expr} {v : Value} (hx : x.isNullValue = true)
    (hv : (x.eval input).result = .ok v) : v.isNull = true := by
  cases x with
  | val w =>
      cases hv
      cases v <;> first | rfl | simp [isNullValue] at hx
  | _ => simp [isNullValue] at hx

theorem compareOperands_refinedBy (op : Comparison) (l r : Expr) :
    ((Expr.cmp op l r).eval input).RefinedBy ((compareOperands op l r).eval input) := by
  unfold compareOperands
  split
  · rename_i hnull
    apply Outcome.RefinedBy.pure
    intro v hv
    obtain ⟨a, ha, hv⟩ := Outcome.result_bind_ok.mp hv
    obtain ⟨b, hb, hv⟩ := Outcome.result_bind_ok.mp hv
    have hab : (a.isNull || b.isNull) = true := by
      rw [Bool.or_eq_true] at hnull ⊢
      exact hnull.imp (isNull_of_isNullValue · ha) (isNull_of_isNullValue · hb)
    rw [Outcome.result_ofResult, Comparison.apply, if_pos hab, Except.ok.injEq] at hv
    exact hv.symm
  · split
    · rename_i hswap
      -- the constant asks nothing, so the look-ups stay in order
      cases l with
      | val w =>
          have hbefore : (Expr.cmp op (.val w) r).eval input =
              r.eval input >>= fun b => Outcome.ofResult (op.apply w b) :=
            pure_bind w fun a => r.eval input >>= fun b => Outcome.ofResult (op.apply a b)
          have hafter : (Expr.cmp op.swap r (.val w)).eval input =
              r.eval input >>= fun b => Outcome.ofResult (op.swap.apply b w) :=
            congrArg (r.eval input >>= ·) (funext fun b =>
              pure_bind w fun a => Outcome.ofResult (op.swap.apply b a))
          rw [hbefore, hafter]
          exact (Outcome.RefinedBy.refl _).bind fun b _ =>
            .ofResult fun v hv => Comparison.apply_swap hv
      | _ => simp [isValue, value?] at hswap
    · exact .refl _

private theorem hasType_compareOperands {op : Comparison} {l r : Expr}
    (hl : Typable arguments l) (hr : Typable arguments r) :
    HasType arguments (compareOperands op l r) .bool := by
  unfold compareOperands
  split
  · exact .val (Or.inl rfl)
  · split
    · exact .cmp hr hl
    · exact .cmp hl hr

/-- A cast that is dropped would have changed nothing. -/
theorem castOperand_refinedBy {x : Expr} {ty : Ty}
    (hfits : x.infer arguments = ty → ∀ w, (x.eval input).result = .ok w → w.Fits ty) :
    ((Expr.cast x ty).eval input).RefinedBy ((castOperand arguments x ty).eval input) := by
  unfold castOperand
  split
  · rename_i hdrop
    rw [Bool.or_eq_true, beq_iff_eq] at hdrop
    refine .of_bind fun w v hw hv => ?_
    have hconvert : ty.convert w = .ok w := by
      rcases hdrop with hty | hsame
      · exact Ty.convert_of_isIndeterminate hty w
      · exact Ty.convert_of_fits (hfits hsame w hw)
    rw [Outcome.result_ofResult, hconvert, Except.ok.injEq] at hv
    exact hv
  · exact .refl _

private theorem hasType_castOperand {x : Expr} {ty : Ty} (hty : ty.isIndeterminate = false)
    (hx : Typable arguments x) : HasType arguments (castOperand arguments x ty) ty := by
  unfold castOperand
  split
  · rename_i hdrop
    rw [hty, Bool.false_or, beq_iff_eq] at hdrop
    obtain ⟨hs⟩ := hx
    rcases hs.inferred with hinfer | hpoly
    · rw [← hdrop, hinfer]
      exact hs
    · exact hpoly.1 ty hty
  · exact .cast hty hx

theorem testNull_refinedBy (arguments : List Ty) (input : Input) (negated : Bool) (x : Expr) :
    ((Expr.isNull negated x).eval input).RefinedBy
      ((testNull arguments negated x).eval input) := by
  unfold testNull
  split
  · rename_i y ty
    split
    · have hcast : (Expr.isNull negated (.cast y ty)).eval input =
          y.eval input >>= fun w => Outcome.ofResult (ty.convert w) >>= fun v =>
            pure (.bool (v.isNull != negated)) := bind_assoc _ _ _
      rw [hcast]
      refine (Outcome.RefinedBy.refl _).bind fun w _ => Outcome.RefinedBy.pure fun v hv => ?_
      obtain ⟨u, hu, hv⟩ := Outcome.result_bind_ok.mp hv
      cases hv
      rw [Ty.isNull_of_convert hu]
    · exact .refl _
  · exact .refl _
  · exact .refl _

private theorem hasType_testNull (negated : Bool) {x : Expr} (hx : Typable arguments x) :
    HasType arguments (testNull arguments negated x) .bool := by
  unfold testNull
  split
  · rename_i y ty
    split
    · obtain ⟨h⟩ := hx
      cases h with
      | cast _ hy => exact .isNull hy
    · exact .isNull hx
  · exact .val (Or.inr rfl)
  · exact .isNull hx

theorem negate_refinedBy (input : Input) (x : Expr) :
    ((Expr.not x).eval input).RefinedBy ((negate x).eval input) := by
  unfold negate
  split
  · rename_i y
    have htwice : (Expr.not (.not y)).eval input =
        y.eval input >>= fun w => Outcome.ofResult w.truth >>= fun truth =>
          pure (Value.ofTruth (truth.map (!·))) >>= fun v => Outcome.ofResult v.truth >>=
            fun truth => pure (Value.ofTruth (truth.map (!·))) := by
      change (y.eval input >>= fun w => Outcome.ofResult w.truth >>= fun truth =>
        pure (Value.ofTruth (truth.map (!·)))) >>= _ = _
      simp only [bind_assoc]
    rw [htwice]
    refine .of_bind fun w v _ hv => ?_
    obtain ⟨truth, htruth, hv⟩ := Outcome.result_bind_ok.mp hv
    rw [truth_ok htruth]
    rw [pure_bind, truth_ofTruth, Outcome.ofResult_ok, pure_bind, Outcome.result_pure,
      Except.ok.injEq] at hv
    rw [← hv, Option.map_map]
    cases truth <;> simp [Value.ofTruth]
  · exact .refl _

private theorem hasType_negate {x : Expr} (hx : HasType arguments x .bool) :
    HasType arguments (negate x) .bool := by
  unfold negate
  split
  · cases hx with
    | not hy => exact hy
  · exact .not hx

/-- Where the parts have values of their inferred types, the rule for a node keeps its value. -/
theorem rule_refinedBy {e : Expr} (hfits : ∀ x ∈ e.children, ∀ v,
      (x.eval input).result = .ok v → v.Fits (x.infer arguments)) :
    (e.eval input).RefinedBy ((rule arguments e).eval input) := by
  cases e with
  | val | arg | col | case => exact .refl _
  | and xs =>
      rw [rule, eval_foldConst]
      exact connect_flatMap_refinedBy (fun _ => rfl) eval_conjuncts xs
  | or xs =>
      rw [rule, eval_foldConst]
      exact connect_flatMap_refinedBy (fun _ => rfl) eval_disjuncts xs
  | cmp op l r =>
      rw [rule, eval_foldConst]
      exact compareOperands_refinedBy op l r
  | cast x ty =>
      rw [rule, eval_foldConst]
      apply castOperand_refinedBy
      intro hsame w hw
      rw [← hsame]
      exact hfits x (List.mem_singleton_self x) w hw
  | isNull negated x =>
      rw [rule, eval_foldConst]
      exact testNull_refinedBy arguments input negated x
  | not x =>
      rw [rule, eval_foldConst]
      exact negate_refinedBy input x

private theorem hasType_foldCase {whens : List (When Expr)} {otherwise : Option Expr}
    {ty : Option Ty} {t : Ty} (h : HasType arguments (.case whens otherwise ty) t) :
    HasType arguments (foldCase arguments whens otherwise) t := by
  rcases foldCase_cases arguments whens otherwise with hfold | hfold | hfold
  · rw [hfold]
    exact .val (Or.inl rfl)
  · cases h with
    | case _ _ _ hresults => exact hresults _ hfold
    | caseNull ht _ hresults => exact hresults _ hfold t ht
  · rw [hfold]
    exact h.retype

private theorem foldCase_refinedBy {whens : List (When Expr)} {otherwise : Option Expr}
    {ty : Option Ty} {t : Ty} (h : HasType arguments (.case whens otherwise ty) t)
    (hin : RespectedBy arguments input (.case whens otherwise ty)) :
    ((Expr.case whens otherwise ty).eval input).RefinedBy
      ((foldCase arguments whens otherwise).eval input) := by
  rcases eval_foldCase input arguments whens otherwise with hfold | hfold
  · rw [hfold]
    exact .of_eq (h.eval_retype hin).symm
  · exact .of_eq ((h.eval_case hin).trans hfold.symm)

theorem hasType_node {e : Expr} {t : Ty} (h : HasType arguments e t) :
    HasType arguments (node arguments e) t := by
  cases e with
  | val | arg | col => exact h
  | and xs =>
      cases h with
      | and hxs =>
          exact hasType_foldConst
            (hasType_connect_flatMap (fun _ => .and) hasType_conjuncts hxs)
  | or xs =>
      cases h with
      | or hxs =>
          exact hasType_foldConst (hasType_connect_flatMap (fun _ => .or) hasType_disjuncts hxs)
  | cmp op l r =>
      cases h with
      | cmp hl hr => exact hasType_foldConst (hasType_compareOperands hl hr)
  | case whens otherwise ty => exact hasType_foldCase h
  | cast x ty =>
      cases h with
      | cast ht hx => exact hasType_foldConst (hasType_castOperand ht hx)
  | isNull negated x =>
      cases h with
      | isNull hx => exact hasType_foldConst (hasType_testNull negated hx)
  | not x =>
      cases h with
      | not hx => exact hasType_foldConst (hasType_negate hx)

theorem node_refinedBy {e : Expr} {t : Ty} (h : HasType arguments e t)
    (hin : RespectedBy arguments input e) :
    (e.eval input).RefinedBy ((node arguments e).eval input) := by
  rcases e.case_or_not with ⟨whens, otherwise, ty, rfl⟩ | hcase
  · exact foldCase_refinedBy h hin
  · rw [node_eq_rule hcase]
    apply rule_refinedBy
    intro x hx v hv
    obtain ⟨hs⟩ := h.child hx
    exact hs.fits_infer (hin.child hx) hv

end Simplify

namespace Expr

variable {arguments : List Ty} {input : Input}

theorem RespectedBy.mapChildren {e : Expr} {f : Expr → Expr} (h : RespectedBy arguments input e)
    (hf : ∀ x ∈ e.children, RespectedBy arguments input (f x)) :
    RespectedBy arguments input (e.mapChildren f) := by
  refine everywhere_iff.mpr ⟨?_, ?_⟩
  · have he := (everywhere_iff.mp h).1
    cases e <;> exact he
  · intro x hx
    rw [children_mapChildren] at hx
    obtain ⟨y, hy, rfl⟩ := List.mem_map.mp hx
    exact hf y hy

theorem RespectedBy.simplify {e : Expr} (h : RespectedBy arguments input e) :
    RespectedBy arguments input (e.simplify arguments) := by
  refine simplify_leaves arguments (fun e he => ?_) h
  cases e <;> trivial

/-- Simplification keeps the type of a typed expression, and its value wherever it has one. -/
theorem HasType.simplify {e : Expr} {t : Ty} (h : HasType arguments e t)
    (hin : RespectedBy arguments input e) :
    HasType arguments (e.simplify arguments) t ∧
      (e.eval input).RefinedBy ((e.simplify arguments).eval input) := by
  induction e using induct generalizing t with
  | node e ih =>
      have hparts : HasType arguments (e.mapChildren (Expr.simplify arguments)) t :=
        h.mapChildren fun x hx s hs => (ih x hx hs (hin.child hx)).1
      have hinParts : RespectedBy arguments input (e.mapChildren (Expr.simplify arguments)) :=
        hin.mapChildren fun x hx => (hin.child hx).simplify
      rw [Expr.simplify_eq]
      refine ⟨Simplify.hasType_node hparts, .trans ?_ (Simplify.node_refinedBy hparts hinParts)⟩
      apply eval_mapChildren_same Outcome.congruence_refinedBy
      intro x hx
      obtain ⟨hs⟩ := h.child hx
      exact (ih x hx hs (hin.child hx)).2

/--
A well-typed expression that has a value for an input keeps it when it is simplified, and what is
looked up afterwards is some of what was looked up before, in the same order.
-/
theorem WellTyped.eval_simplify {e : Expr} (h : WellTyped arguments e)
    (hin : RespectedBy arguments input e) {v : Value} (hv : (e.eval input).result = .ok v) :
    ((e.simplify arguments).eval input).result = .ok v ∧
      ((e.simplify arguments).eval input).lookups.Sublist (e.eval input).lookups :=
  (h.hasType.simplify hin).2 v hv

/-- Comparisons, a cast and an inner CASE, all of which simplification rewrites. -/
def nestedCase : Expr :=
  case
    [⟨cmp .lt (val (.i64 5)) (col "x" .i64), cast (arg 0) .i64⟩,
      ⟨and [not (not (col "b" .bool)), val (.bool true)],
        case [⟨val (.bool true), col "x" .i64⟩] (some (val .null)) none⟩]
    (some (val .null)) none

def nestedCaseRow : Row := ⟨[("x", .i64 3), ("b", .bool true)], [.i64 9]⟩

theorem eval_simplify_nestedCase :
    WellTyped [.i64] nestedCase ∧ RespectedBy [.i64] nestedCaseRow.toInput nestedCase ∧
      (nestedCase.eval nestedCaseRow.toInput).result = .ok (.i64 3) ∧
      ((nestedCase.simplify [.i64]).eval nestedCaseRow.toInput).result = .ok (.i64 3) ∧
      ((nestedCase.simplify [.i64]).eval nestedCaseRow.toInput).lookups.Sublist
        (nestedCase.eval nestedCaseRow.toInput).lookups :=
  ⟨by decide, by decide, rfl, WellTyped.eval_simplify (by decide) (by decide) rfl⟩

end Expr

end QueryExpr
