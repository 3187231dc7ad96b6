import QueryExpr.Proofs.HasType
import QueryExpr.Proofs.Operands
import QueryExpr.Proofs.Subterms

/-!
# Soundness of the typing rules

An input respects the declared types if it answers with null or with a value of the declared type;
nothing is asked of what has no declared type. On such an input a typed expression evaluates to null
or to a value of its type, and a typed CASE to the value of the chosen result as it is.
-/

namespace QueryExpr

/-- What may stand for a declared type: null, or a value of the type, if it is known. -/
def Value.Fits (v : Value) (ty : Ty) : Prop := v = .null ∨ v.ty = ty ∨ ty = .unknown

instance (v : Value) (ty : Ty) : Decidable (v.Fits ty) :=
  inferInstanceAs (Decidable (v = .null ∨ v.ty = ty ∨ ty = .unknown))

theorem Value.Fits.eq_null_or {v : Value} {ty : Ty} (h : v.Fits ty)
    (hty : ty.isIndeterminate = false) : v = .null ∨ v.ty = ty := by
  rcases h with h | h | rfl
  · exact Or.inl h
  · exact Or.inr h
  · simp [Ty.isIndeterminate] at hty

theorem Ty.convert_of_fits {v : Value} {ty : Ty} (h : v.Fits ty) : ty.convert v = .ok v := by
  rcases h with rfl | h | rfl
  · exact convert_null ty
  · exact convert_of_ty_eq h
  · exact convert_of_isIndeterminate rfl v

namespace Expr

/-- At a column or an argument: an answer of the input fits the declared type. -/
def Answered (arguments : List Ty) (input : Input) : Expr → Prop
  | arg position => ∀ v ∈ input.argument position, v.Fits (Ty.ofArgument arguments position)
  | col name ty => ∀ v ∈ input.column name, v.Fits ty
  | _ => True

instance (arguments : List Ty) (input : Input) : DecidablePred (Answered arguments input)
  | arg position => inferInstanceAs (Decidable
      (∀ v ∈ input.argument position, v.Fits (Ty.ofArgument arguments position)))
  | col name ty => inferInstanceAs (Decidable (∀ v ∈ input.column name, v.Fits ty))
  | val _ | and _ | or _ | cmp _ _ _ | case _ _ _ | cast _ _ | isNull _ _ | not _ =>
      inferInstanceAs (Decidable True)

/-- The input respects the types declared for the columns and arguments of the expression. -/
def RespectedBy (arguments : List Ty) (input : Input) (e : Expr) : Prop :=
  Everywhere (Answered arguments input) e

instance (arguments : List Ty) (input : Input) (e : Expr) :
    Decidable (RespectedBy arguments input e) :=
  inferInstanceAs (Decidable (Everywhere _ e))

theorem RespectedBy.child {arguments : List Ty} {input : Input} {x e : Expr}
    (h : RespectedBy arguments input e) (hx : x ∈ e.children) : RespectedBy arguments input x :=
  (everywhere_iff.mp h).2 x hx

theorem RespectedBy.retype {arguments : List Ty} {input : Input} {whens : List (When Expr)}
    {otherwise : Option Expr} {ty : Option Ty}
    (h : RespectedBy arguments input (case whens otherwise ty)) (ty' : Option Ty) :
    RespectedBy arguments input (case whens otherwise ty') :=
  everywhere_iff.mpr ⟨trivial, (everywhere_iff.mp h).2⟩

/-- The value of the branch that a CASE chooses, before it is converted. -/
def evalBranches (input : Input) (whens : List (When Expr)) (otherwise : Option Expr) :
    Outcome Value := do
  match ← evalWhens input whens with
  | some v => pure v
  | none => evalOption input otherwise

theorem eval_case (input : Input) (whens : List (When Expr)) (otherwise : Option Expr)
    (ty : Option Ty) :
    (case whens otherwise ty).eval input =
      evalBranches input whens otherwise >>= fun v => Outcome.ofResult (Ty.settle ty v) := by
  rw [evalBranches, bind_assoc]
  change evalWhens input whens >>= _ = _
  congr 1
  funext choice
  cases choice with
  | none => rfl
  | some v => rw [pure_bind]

theorem eval_case_none (input : Input) (whens : List (When Expr)) (otherwise : Option Expr) :
    (case whens otherwise none).eval input = evalBranches input whens otherwise := by
  rw [eval_case]
  exact bind_pure _

theorem evalWhens_cons (input : Input) (w : When Expr) (ws : List (When Expr)) :
    evalWhens input (w :: ws) =
      (w.condition.eval input >>= fun v => Outcome.ofResult v.truth >>= fun truth =>
        match truth with
        | some true => w.result.eval input >>= fun v => pure (some v)
        | _ => evalWhens input ws) := rfl

private theorem evalWhens_ok {input : Input} {whens : List (When Expr)} {v : Value}
    (h : (evalWhens input whens).result = .ok (some v)) :
    ∃ w ∈ whens, (w.result.eval input).result = .ok v := by
  induction whens with
  | nil => simp [evalWhens] at h
  | cons w ws ih =>
      rw [evalWhens_cons] at h
      obtain ⟨c, -, h⟩ := Outcome.result_bind_ok.mp h
      obtain ⟨truth, -, h⟩ := Outcome.result_bind_ok.mp h
      match truth with
      | some true =>
          obtain ⟨u, hu, h⟩ := Outcome.result_bind_ok.mp h
          rw [Outcome.result_pure, Except.ok.injEq, Option.some.injEq] at h
          exact ⟨w, List.mem_cons_self, h ▸ hu⟩
      | some false | none =>
          obtain ⟨w', hw', hv⟩ := ih h
          exact ⟨w', List.mem_cons_of_mem _ hw', hv⟩

theorem evalBranches_ok {input : Input} {whens : List (When Expr)} {otherwise : Option Expr}
    {v : Value} (h : (evalBranches input whens otherwise).result = .ok v) :
    v = .null ∨ ∃ x ∈ results whens otherwise, (x.eval input).result = .ok v := by
  obtain ⟨choice, hchoice, h⟩ := Outcome.result_bind_ok.mp h
  cases choice with
  | some w =>
      rw [Outcome.result_pure, Except.ok.injEq] at h
      subst h
      obtain ⟨w, hw, hv⟩ := evalWhens_ok hchoice
      exact Or.inr ⟨w.result, result_mem_results hw, hv⟩
  | none =>
      cases otherwise with
      | none =>
          simp only [evalOption, Outcome.result_pure, Except.ok.injEq] at h
          exact Or.inl h.symm
      | some x => exact Or.inr ⟨x, otherwise_mem_results rfl, h⟩

variable {arguments : List Ty} {input : Input}

theorem fits_bool_of_truth {truth : Option Bool} : (Value.ofTruth truth).Fits .bool := by
  cases truth with
  | none => exact Or.inl rfl
  | some b => exact Or.inr (Or.inl rfl)

theorem ofTruth_of_apply {op : Comparison} {v w u : Value}
    (h : op.apply v w = .ok u) : ∃ truth, u = Value.ofTruth truth := by
  unfold Comparison.apply at h
  split at h
  · cases h
    exact ⟨none, rfl⟩
  · split at h
    · cases h
      exact ⟨some _, rfl⟩
    · simp at h

theorem require_ok {lookup : Lookup} {v : Value}
    (h : (input.require lookup).result = .ok v) : input.answer? lookup = some v := by
  unfold Input.require at h
  dsimp only at h
  split at h
  · cases h
    assumption
  · simp at h

private theorem Fits.of_declared {v : Value} {ty t : Ty} (h : v.Fits ty)
    (hty : ty = t ∨ ty = .null) : v.Fits t := by
  rcases hty with rfl | rfl
  · exact h
  · exact Or.inl (h.elim id fun h => h.elim Value.ty_eq_null_iff.mp nofun)

/-- Connectives, comparisons and tests. -/
def isLogical : Expr → Bool
  | and _ | or _ | cmp _ _ _ | isNull _ _ | not _ => true
  | _ => false

theorem fits_bool_of_eval {e : Expr} (he : e.isLogical = true) {v : Value}
    (hv : (e.eval input).result = .ok v) : v.Fits .bool := by
  cases e with
  | and xs | or xs =>
      obtain ⟨truth, rfl⟩ := evalOperands_ok input _ hv
      exact fits_bool_of_truth
  | cmp op l r =>
      obtain ⟨a, -, hv⟩ := Outcome.result_bind_ok.mp hv
      obtain ⟨b, -, hv⟩ := Outcome.result_bind_ok.mp hv
      obtain ⟨truth, rfl⟩ := ofTruth_of_apply hv
      exact fits_bool_of_truth
  | isNull negated x =>
      obtain ⟨w, -, hv⟩ := Outcome.result_bind_ok.mp hv
      cases hv
      exact Or.inr (Or.inl rfl)
  | not x =>
      obtain ⟨w, -, hv⟩ := Outcome.result_bind_ok.mp hv
      obtain ⟨truth, -, hv⟩ := Outcome.result_bind_ok.mp hv
      cases hv
      exact fits_bool_of_truth
  | _ => simp [isLogical] at he

private theorem eq_null_of_fits {v : Value} (hbool : v.Fits .bool) (hstring : v.Fits .string) :
    v = .null := by
  rcases hbool.eq_null_or rfl with h | h
  · exact h
  · rcases hstring.eq_null_or rfl with h' | h'
    · exact h'
    · rw [h] at h'
      simp at h'

/-- The stored type of a typed CASE converts the chosen result to itself. -/
private theorem settle_of_hasType {whens : List (When Expr)} {otherwise : Option Expr}
    {ty : Option Ty} {t : Ty} {v : Value}
    (h : HasType arguments (case whens otherwise ty) t)
    (hresults : ∀ x ∈ results whens otherwise, ∀ s, HasType arguments x s →
      (x.eval input).result = .ok v → v.Fits s)
    (hv : (evalBranches input whens otherwise).result = .ok v) :
    Ty.settle ty v = .ok v ∧ v.Fits t := by
  rcases evalBranches_ok hv with rfl | ⟨x, hx, hxv⟩
  · refine ⟨?_, Or.inl rfl⟩
    cases ty with
    | none => rfl
    | some ty => exact Ty.convert_null ty
  · cases h with
    | case ht hty _ htyped =>
        have hfits := hresults x hx t (htyped x hx) hxv
        refine ⟨?_, hfits⟩
        rcases hty with rfl | rfl
        · rfl
        · rcases hfits.eq_null_or ht with rfl | hv
          · exact Ty.convert_null t
          · exact Ty.convert_of_ty_eq hv
    | caseNull ht _ hpoly =>
        have hnull : v = .null := eq_null_of_fits (hresults x hx _ (hpoly x hx .bool rfl) hxv)
          (hresults x hx _ (hpoly x hx .string rfl) hxv)
        subst hnull
        exact ⟨Ty.convert_null .string, Or.inl rfl⟩

/-- A typed expression evaluates to null or to a value of its type. -/
theorem HasType.fits {e : Expr} {t : Ty} (h : HasType arguments e t)
    (hin : RespectedBy arguments input e) {v : Value} (hv : (e.eval input).result = .ok v) :
    v.Fits t := by
  induction e using induct generalizing t v with
  | node e ih =>
      cases e with
      | val w =>
          cases h with
          | val h =>
              cases hv
              exact h.imp id Or.inl
      | arg position =>
          cases h with
          | arg h => exact Fits.of_declared (hin _ (self_mem_subterms _) v (require_ok hv)) h
      | col name ty =>
          cases h with
          | col h => exact Fits.of_declared (hin _ (self_mem_subterms _) v (require_ok hv)) h
      | and | or | cmp | isNull | not =>
          cases h
          exact fits_bool_of_eval rfl hv
      | case whens otherwise ty =>
          rw [eval_case] at hv
          obtain ⟨w, hw, hv⟩ := Outcome.result_bind_ok.mp hv
          have hresults : ∀ x ∈ results whens otherwise, ∀ s, HasType arguments x s →
              (x.eval input).result = .ok w → w.Fits s := by
            intro x hx s hs hxv
            have hchild : x ∈ (Expr.case whens otherwise ty).children :=
              mem_children_of_mem_results hx
            exact ih x hchild hs (hin.child hchild) hxv
          obtain ⟨hsettle, hfits⟩ := settle_of_hasType h hresults hw
          rw [Outcome.result_ofResult, hsettle, Except.ok.injEq] at hv
          exact hv ▸ hfits
      | cast x ty =>
          obtain ⟨w, -, hv⟩ := Outcome.result_bind_ok.mp hv
          cases h with
          | cast ht => exact (Ty.convert_typed ht hv).imp id Or.inl

theorem Polymorphic.eq_null {e : Expr} (h : Polymorphic arguments e)
    (hin : RespectedBy arguments input e) {v : Value} (hv : (e.eval input).result = .ok v) :
    v = .null :=
  eq_null_of_fits ((h .bool rfl).fits hin hv) ((h .string rfl).fits hin hv)

theorem HasType.fits_infer {e : Expr} {t : Ty} (h : HasType arguments e t)
    (hin : RespectedBy arguments input e) {v : Value} (hv : (e.eval input).result = .ok v) :
    v.Fits (e.infer arguments) := by
  rcases h.inferred with hinfer | ⟨hpoly, -⟩
  · rw [hinfer]
    exact h.fits hin hv
  · exact Or.inl (hpoly.eq_null hin hv)

theorem HasType.eval_case {whens : List (When Expr)} {otherwise : Option Expr} {ty : Option Ty}
    {t : Ty} (h : HasType arguments (Expr.case whens otherwise ty) t)
    (hin : RespectedBy arguments input (Expr.case whens otherwise ty)) :
    (Expr.case whens otherwise ty).eval input = evalBranches input whens otherwise := by
  rw [Expr.eval_case, ← bind_pure (evalBranches input whens otherwise), bind_assoc]
  apply Outcome.bind_congr_ok
  intro v hv
  have hresults : ∀ x ∈ results whens otherwise, ∀ s, HasType arguments x s →
      (x.eval input).result = .ok v → v.Fits s := by
    intro x hx s hs hxv
    exact hs.fits (hin.child (mem_children_of_mem_results hx)) hxv
  rw [pure_bind, (settle_of_hasType h hresults hv).1]
  rfl

/-- A typed CASE may as well convert to the type its results share. -/
theorem HasType.eval_retype {whens : List (When Expr)} {otherwise : Option Expr} {ty : Option Ty}
    {t : Ty} (h : HasType arguments (Expr.case whens otherwise ty) t)
    (hin : RespectedBy arguments input (Expr.case whens otherwise ty)) :
    (Expr.case whens otherwise (some (Ty.ofBranches arguments whens otherwise))).eval input =
      (Expr.case whens otherwise ty).eval input := by
  rw [h.retype.eval_case (hin.retype _), h.eval_case hin]

end Expr

end QueryExpr
