import QueryExpr.Proofs.Selection
import QueryExpr.Proofs.Widening

/-!
# The two ways of preparing an expression

Simplification replaces a CASE that is decided in advance by a result as it is, and it may infer
another type for what it rewrites. With the CASE types alone a CASE converts what it chooses to the
type that is inferred for it as it was built. The two come to the same as long as simplification
leaves every CASE this type, for then a result that is put in its place has the type already.
-/

namespace QueryExpr

namespace Expr

variable {arguments : List Ty} {input : Input}

private theorem mem_toOption_iff {result : Except Error Value} {v : Value} :
    v ∈ result.toOption ↔ result = .ok v := by
  cases result <;> simp [Except.toOption]

/-- A CASE for which simplification infers the same type, or one that is null in any case. -/
def KeepsCaseType (arguments : List Ty) (input : Input) (e : Expr) : Prop :=
  e.isCase = true → (e.simplify arguments).infer arguments = e.infer arguments ∨
    ∀ v ∈ ((e.resolveTypes arguments).eval input).result.toOption, v = .null

instance (arguments : List Ty) (input : Input) : DecidablePred (KeepsCaseType arguments input) :=
  fun e => inferInstanceAs (Decidable (e.isCase = true →
    (e.simplify arguments).infer arguments = e.infer arguments ∨
      ∀ v ∈ ((e.resolveTypes arguments).eval input).result.toOption, v = .null))

/-- A simplified CASE converts to its inferred type, also where only one result is left of it. -/
theorem eval_simplify_case {whens : List (When Expr)} {otherwise : Option Expr} {ty : Option Ty}
    (hin : RespectedBy arguments input (case whens otherwise ty)) :
    ((case whens otherwise ty).simplify arguments).eval input =
      evalBranches input (whens.map (When.map (simplify arguments)))
        (otherwise.map (simplify arguments)) >>= fun v =>
          Outcome.ofResult
            ((((case whens otherwise ty).simplify arguments).infer arguments).convert v) := by
  rcases Simplify.eval_foldCase input arguments (whens.map (When.map (simplify arguments)))
      (otherwise.map (simplify arguments)) with hstays | hchosen
  · rw [simplify_case, hstays, eval_case, infer]
    rfl
  · rw [← simplify_case arguments whens otherwise ty] at hchosen
    rw [hchosen, ← bind_pure (evalBranches input _ _), bind_assoc]
    apply Outcome.bind_congr_ok
    intro v hv
    have hfits := fits_simplify _ hin.simplify (hchosen ▸ hv)
    rw [pure_bind, Ty.convert_of_fits hfits, Outcome.ofResult_ok]

private theorem refinedBy_case {whens : List (When Expr)} {otherwise : Option Expr}
    {ty : Option Ty} (hkeeps : KeepsCaseType arguments input (case whens otherwise ty))
    (hin : RespectedBy arguments input (case whens otherwise ty))
    (hparts : ∀ x ∈ (case whens otherwise ty).children,
      ((x.resolveTypes arguments).eval input).RefinedBy ((x.simplify arguments).eval input)) :
    (((case whens otherwise ty).resolveTypes arguments).eval input).RefinedBy
      (((case whens otherwise ty).simplify arguments).eval input) := by
  have hbranches := eval_mapChildren_congr Outcome.congruence_refinedBy
    (e := case whens otherwise none) rfl hparts
  simp only [mapChildren, eval_case_none] at hbranches
  have hresolved := eval_case input (whens.map (When.map (resolveTypes arguments)))
    (otherwise.map (resolveTypes arguments)) (some ((case whens otherwise ty).infer arguments))
  rw [← resolveTypes_case] at hresolved
  rw [hresolved, eval_simplify_case hin]
  refine hbranches.bind fun a ha => .ofResult fun v hv => ?_
  rcases hkeeps rfl with hinfer | hnull
  · rw [hinfer]
    exact hv
  · have heval : (((case whens otherwise ty).resolveTypes arguments).eval input).result =
        .ok v := by
      rw [hresolved, Outcome.bind_of_ok ha]
      exact hv
    have hvnull : v = .null := hnull v (mem_toOption_iff.mpr heval)
    have hanull : a = .null := by
      rw [← Value.isNull_iff, ← Ty.isNull_of_convert hv, hvnull]
      rfl
    rw [hanull, hvnull, Ty.convert_null]

private theorem refinedBy_of_not_case {e : Expr} (hcase : e.isCase = false)
    (hin : RespectedBy arguments input e)
    (hparts : ∀ x ∈ e.children,
      ((x.resolveTypes arguments).eval input).RefinedBy ((x.simplify arguments).eval input)) :
    ((e.resolveTypes arguments).eval input).RefinedBy ((e.simplify arguments).eval input) := by
  have hmapped : ((e.mapChildren (resolveTypes arguments)).eval input).RefinedBy
      ((e.mapChildren (simplify arguments)).eval input) := by
    cases e with
    | arg | col => exact .refl _
    | _ => exact eval_mapChildren_congr Outcome.congruence_refinedBy rfl hparts
  rw [resolveTypes_of_not_case hcase, simplify_eq, Simplify.node_eq_rule (by simpa using hcase)]
  apply hmapped.trans
  apply Simplify.rule_refinedBy
  intro y hy v hv
  rw [children_mapChildren] at hy
  obtain ⟨x, hx, rfl⟩ := List.mem_map.mp hy
  exact fits_simplify x (hin.child hx).simplify hv

/-- Simplified, an expression has every value that it has when only its CASE types are added. -/
theorem resolveTypes_refinedBy_simplify {e : Expr}
    (hkeeps : Everywhere (KeepsCaseType arguments input) e)
    (hin : RespectedBy arguments input e) :
    ((e.resolveTypes arguments).eval input).RefinedBy ((e.simplify arguments).eval input) := by
  induction e using induct with
  | node e ih =>
      obtain ⟨hnode, hbelow⟩ := everywhere_iff.mp hkeeps
      have hparts : ∀ x ∈ e.children, ((x.resolveTypes arguments).eval input).RefinedBy
          ((x.simplify arguments).eval input) :=
        fun x hx => ih x hx (hbelow x hx) (hin.child hx)
      rcases e.case_or_not with ⟨whens, otherwise, ty, rfl⟩ | hcase
      · exact refinedBy_case hnode hin hparts
      · exact refinedBy_of_not_case hcase hin hparts

private theorem infer_foldConst_castOperand {x : Expr} {ty : Ty}
    (hty : ty.isIndeterminate = false) {v : Value}
    (hv : ((Simplify.foldConst (Simplify.castOperand arguments x ty)).eval input).result = .ok v)
    (hvty : v.ty = ty) :
    (Simplify.foldConst (Simplify.castOperand arguments x ty)).infer arguments = ty := by
  rcases Simplify.foldConst_cases (Simplify.castOperand arguments x ty) with
    ⟨w, hfold, -⟩ | ⟨hkeep, -⟩
  · rw [hfold] at hv ⊢
    cases hv
    exact hvty
  · rw [hkeep]
    unfold Simplify.castOperand
    split
    · rename_i hdrop
      simpa [hty] using hdrop
    · rfl

theorem HasType.eval_resolveTypes {e : Expr} {t : Ty} (h : HasType arguments e t)
    (hin : RespectedBy arguments input e) :
    (e.resolveTypes arguments).eval input = e.eval input := by
  induction e using induct generalizing t with
  | node e ih =>
      have hparts : ∀ x ∈ e.children, x.eval input = (x.resolveTypes arguments).eval input := by
        intro x hx
        obtain ⟨hs⟩ := h.child hx
        exact (ih x hx hs (hin.child hx)).symm
      rcases e.case_or_not with ⟨whens, otherwise, ty, rfl⟩ | hcase
      · have hstored : (Expr.case whens otherwise
            (some ((Expr.case whens otherwise ty).infer arguments))).eval input =
              (Expr.case whens otherwise ty).eval input := by
          cases ty with
          | none => exact h.eval_retype hin
          | some ty => rw [infer]
        rw [resolveTypes_case, ← hstored]
        exact (eval_mapChildren_same Outcome.congruence_eq
          (e := Expr.case whens otherwise (some _)) hparts).symm
      · rw [resolveTypes_of_not_case hcase]
        exact (eval_mapChildren_same Outcome.congruence_eq hparts).symm

theorem HasType.infer_simplify {e : Expr} {t : Ty} (h : HasType arguments e t)
    (hin : RespectedBy arguments input e) {v : Value} (hv : (e.eval input).result = .ok v)
    (hnull : v ≠ .null) : (e.simplify arguments).infer arguments = e.infer arguments := by
  obtain ⟨htyped, heval⟩ := h.simplify hin
  rcases h.inferred with hinfer | ⟨hpoly, -⟩
  · rcases htyped.inferred with hinfer' | ⟨hpoly, -⟩
    · rw [hinfer, hinfer']
    · exact absurd (hpoly.eq_null hin.simplify (heval v hv).1) hnull
  · exact absurd (hpoly.eq_null hin hv) hnull

theorem WellTyped.keepsCaseType {e : Expr} (h : WellTyped arguments e)
    (hin : RespectedBy arguments input e) : Everywhere (KeepsCaseType arguments input) e := by
  intro c hc hcase
  have hctyped : WellTyped arguments c := h.of_subterm hc
  have hcin : RespectedBy arguments input c := hin.of_subterm hc
  by_cases hinfer : (c.simplify arguments).infer arguments = c.infer arguments
  · exact Or.inl hinfer
  · right
    intro v hv
    rw [hctyped.hasType.eval_resolveTypes hcin, mem_toOption_iff] at hv
    by_contra hnull
    exact hinfer (hctyped.hasType.infer_simplify hcin hv hnull)

/-- A CASE that stays undecided keeps its type if its results do, of whatever types they are. -/
theorem KeepsCaseType.of_undetermined {before after : List (When Expr)} {w : When Expr}
    {otherwise : Option Expr} {ty : Option Ty}
    (hbefore : ∀ u ∈ before, Simplify.NeverSelects (u.condition.simplify arguments))
    (hw : Simplify.Undetermined (w.condition.simplify arguments))
    (hresults : ∀ x ∈ results (before ++ w :: after) otherwise,
      (x.simplify arguments).infer arguments = x.infer arguments)
    (hty : ty = none ∨ ty = some (Ty.ofBranches arguments (before ++ w :: after) otherwise)) :
    KeepsCaseType arguments input (case (before ++ w :: after) otherwise ty) := by
  intro _
  left
  have hskipped : ∀ u ∈ before.map (When.map (simplify arguments)),
      Simplify.NeverSelects u.condition := by simpa [When.map] using hbefore
  have hshared : Ty.ofBranches arguments
      ((before ++ w :: after).map (When.map (simplify arguments)))
      (otherwise.map (simplify arguments)) =
        Ty.ofBranches arguments (before ++ w :: after) otherwise := by
    rw [Ty.ofBranches_eq, Ty.ofBranches_eq, results_map, List.map_map]
    congr 2
    exact List.map_congr_left hresults
  rw [simplify_case, List.map_append, List.map_cons,
    Simplify.foldCase_of_undetermined arguments _ (w := w.map _) hskipped hw, infer,
    ← List.map_cons, ← List.map_append, hshared]
  rcases hty with rfl | rfl
  · rfl
  · rw [infer]

/--
What simplification infers for an expression that has a value other than null. A cast to no type in
particular is left out: simplification drops it, and the type of the operand comes to light.
-/
theorem infer_simplify {e : Expr} (hkeeps : KeepsCaseType arguments input e)
    (hin : RespectedBy arguments input e) {v : Value} (hnull : v ≠ .null)
    (hv : ((e.resolveTypes arguments).eval input).result = .ok v)
    (hfolded : ((e.simplify arguments).eval input).result = .ok v)
    (hcast : ∀ x ty, e = cast x ty → ty.isIndeterminate = false) :
    (e.simplify arguments).infer arguments = e.infer arguments ∨
      e.infer arguments = .bool ∧ (e.simplify arguments).infer arguments = .unknown := by
  cases e with
  | val | arg | col => exact Or.inl rfl
  | and | or | cmp | isNull | not =>
      rw [resolveTypes_of_not_case rfl] at hv
      have hbool : v.ty = .bool :=
        ((fits_bool_of_eval rfl hv).eq_null_or rfl).resolve_left hnull
      rcases fits_simplify _ hin.simplify hfolded with h | h | h
      · exact absurd h hnull
      · exact Or.inl (h.symm.trans hbool)
      · exact Or.inr ⟨rfl, h⟩
  | case whens otherwise ty =>
      exact Or.inl ((hkeeps rfl).resolve_right fun h => hnull (h v (mem_toOption_iff.mpr hv)))
  | cast x ty =>
      have hty := hcast x ty rfl
      rw [resolveTypes_of_not_case rfl] at hv
      obtain ⟨w, -, hv⟩ := Outcome.result_bind_ok.mp hv
      have hvty : v.ty = ty := (Ty.convert_typed hty hv).resolve_left hnull
      exact Or.inl (infer_foldConst_castOperand hty hfolded hvty)

end Expr

namespace Plan

variable {arguments : List Ty} {input : Input}

/--
Prepared with and without simplification, an expression whose CASEs keep their types has the same
value, and for any value but null both plans report the same type. A cast to no type in particular
is left out here, and of a condition with an operand of no known type less may be known afterwards.
-/
theorem prepare_agrees (planner : Planner) {e : Expr}
    (hkeeps : Expr.Everywhere (Expr.KeepsCaseType arguments input) e)
    (hin : Expr.RespectedBy arguments input e) {v : Value}
    (hv : (({ planner with simplifies := false }.prepare arguments e).eval input).result = .ok v) :
    let folded := { planner with simplifies := true }.prepare arguments e
    let unfolded := { planner with simplifies := false }.prepare arguments e
    (folded.eval input).result = .ok v ∧
      (v ≠ .null → (∀ x ty, e = .cast x ty → ty.isIndeterminate = false) →
        folded.ty = unfolded.ty ∨ unfolded.ty = .bool ∧ folded.ty = .unknown) := by
  intro folded unfolded
  have hfolded : (folded.eval input).result = .ok v :=
    (Expr.resolveTypes_refinedBy_simplify hkeeps hin v hv).1
  refine ⟨hfolded, fun hnull hcast => ?_⟩
  have hty : unfolded.ty = e.infer arguments := Expr.infer_resolveTypes e
  rw [hty]
  exact Expr.infer_simplify (Expr.everywhere_iff.mp hkeeps).1 hin hnull hv hfolded hcast

/--
Results of two numeric types, of which the input chooses one. Simplification puts a result in place
of both inner CASEs; the second one has no type of its own any more, but it is null.
-/
def undecidedCase : Expr :=
  let x : Expr := .col "x" .i64
  let always (result : Expr) : Expr := .case [⟨.val (.bool true), result⟩] none none
  .case
    [⟨.cmp .lt (.val (.i64 0)) x, always (.val (.i32 1))⟩,
      ⟨.isNull false x, always (.cast (.val .null) .f64)⟩]
    (some (.val (.f64 .zero))) none

theorem prepare_agrees_undecidedCase :
    let folded := Planner.prepare ⟨.canonical, true⟩ [] undecidedCase
    let unfolded := Planner.prepare ⟨.canonical, false⟩ [] undecidedCase
    Expr.Everywhere (Expr.KeepsCaseType [] widenedCaseRow.toInput) undecidedCase ∧
      Expr.RespectedBy [] widenedCaseRow.toInput undecidedCase ∧
      (unfolded.eval widenedCaseRow.toInput).result = .ok (.f64 .one) ∧
      (folded.eval widenedCaseRow.toInput).result = .ok (.f64 .one) ∧
      (Value.f64 .one ≠ .null →
        (∀ x ty, undecidedCase = .cast x ty → ty.isIndeterminate = false) →
        folded.ty = unfolded.ty ∨ unfolded.ty = .bool ∧ folded.ty = .unknown) :=
  ⟨by decide, by decide, rfl, prepare_agrees .default (by decide) (by decide) rfl⟩

example : Expr.Everywhere (Expr.KeepsCaseType [] widenedCaseRow.toInput) widenedCase ∧
    ¬ Expr.WellTyped [] widenedCase := by decide

/-- Branches of two types, of which the chosen one is known in advance. -/
def decidedCase : Expr :=
  .case [⟨.val (.bool true), .val (.i64 1)⟩] (some (.val (.f64 .zero))) none

/--
CASEs for which simplification infers another type: one that is decided has results of another type
or carries another one, or the type that is inferred for a result changes.
-/
def looselyTyped : List Expr :=
  let yes : Expr := .val (.bool true)
  let one : Expr := .val (.i64 1)
  let flag : Expr := .col "flag" .bool
  let ratio : Expr := .col "ratio" .f64
  [decidedCase, .case [⟨flag, .cast (.val .null) .f64⟩] (some one) none,
    .case [⟨yes, one⟩] none (some .f64),
    .case [⟨yes, .cast one .unknown⟩] none none,
    .case [⟨yes, .cast one .null⟩] none none,
    .case [⟨flag, .not (.not ratio)⟩] (some yes) none,
    .case [⟨flag, .and [ratio]⟩] (some yes) none,
    .case [⟨flag, .or [ratio]⟩] (some yes) none]

/-- Casts to no type in particular, and conditions with an operand of no known type. -/
def barelyTyped : List Expr :=
  [.cast (.val (.i64 1)) .unknown, .cast (.val (.i64 1)) .null, .not (.not (.arg 0)),
    .and [.arg 0], .or [.arg 0]]

def looseRow : Row := ⟨[("flag", .bool false), ("ratio", .f64 .one)], [.bool true]⟩

/--
Operands for every connective are not enough for the two ways of preparing an expression to agree.
A CASE that loses its type may have another value, and without any CASE the types may differ.
-/
theorem prepare_disagrees :
    (¬ ∀ (planner : Planner) (arguments : List Ty) (input : Input) (e : Expr) (v : Value),
      Expr.Everywhere (·.hasOperands = true) e → Expr.RespectedBy arguments input e →
      (({ planner with simplifies := false }.prepare arguments e).eval input).result = .ok v →
      (({ planner with simplifies := true }.prepare arguments e).eval input).result = .ok v ∧
        (v ≠ .null → ({ planner with simplifies := true }.prepare arguments e).ty =
          ({ planner with simplifies := false }.prepare arguments e).ty)) ∧
    (∀ e ∈ looselyTyped, Expr.Everywhere (·.hasOperands = true) e ∧
      Expr.RespectedBy [] looseRow.toInput e ∧
      ∃ v w, ((Planner.prepare ⟨.canonical, false⟩ [] e).eval looseRow.toInput).result = .ok v ∧
        ((Planner.prepare ⟨.canonical, true⟩ [] e).eval looseRow.toInput).result = .ok w ∧
        v ≠ w) ∧
    ∀ e ∈ barelyTyped, Expr.Everywhere (·.hasOperands = true) e ∧
      Expr.RespectedBy [] looseRow.toInput e ∧
      ∃ v, ((Planner.prepare ⟨.canonical, false⟩ [] e).eval looseRow.toInput).result = .ok v ∧
        v ≠ .null ∧
        (Planner.prepare ⟨.canonical, true⟩ [] e).ty ≠
          (Planner.prepare ⟨.canonical, false⟩ [] e).ty := by
  refine ⟨?_, ?_, ?_⟩
  · intro h
    have hkept := h .default [] looseRow.toInput decidedCase (.f64 .one)
      (by decide) (by decide) rfl
    have hfolded : ((Planner.prepare ⟨.canonical, true⟩ [] decidedCase).eval
        looseRow.toInput).result = .ok (.i64 1) := rfl
    cases hfolded.symm.trans hkept.1
  · intro e he
    simp only [looselyTyped, List.mem_cons, List.not_mem_nil, or_false] at he
    rcases he with rfl | rfl | rfl | rfl | rfl | rfl | rfl | rfl <;>
      exact ⟨by decide, by decide, _, _, rfl, rfl, by decide⟩
  · intro e he
    simp only [barelyTyped, List.mem_cons, List.not_mem_nil, or_false] at he
    rcases he with rfl | rfl | rfl | rfl | rfl <;>
      exact ⟨by decide, by decide, _, rfl, by decide, by decide⟩

end Plan

end QueryExpr
