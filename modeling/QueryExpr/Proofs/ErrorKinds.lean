import QueryExpr.Case
import QueryExpr.Proofs.Conversion
import QueryExpr.Proofs.Lookups
import QueryExpr.Proofs.Soundness

/-!
# Where the errors of an evaluation come from

An error is raised at one node, and every node above it passes it on unchanged. It reports that the
node has no value for the input, or that a value could not be converted; and only a cast or a CASE
to a type that says something refuses a value.
-/

namespace QueryExpr

namespace Expr

/-- The type a node converts values to: that of a cast, or the one a CASE carries. -/
def target? : Expr → Option Ty
  | cast _ ty => some ty
  | case _ _ ty => ty
  | _ => none

/-- What a node itself can fail with: it has no value, or a value does not convert. -/
def RaisedBy (e : Expr) (err : Error) : Prop :=
  (∃ reason, err = Error.evaluation reason) ∨ ∃ ty ∈ e.target?, ∃ v, ty.convert v = .error err

/--
How a node itself fails on an input: there is no answer to what it asks, a condition is no boolean,
two values are not comparable, or a value does not convert.
-/
inductive Raises (input : Input) (e : Expr) : Error → Prop
  | unanswered {l : Lookup} {err : Error} (hl : l ∈ e.lookup?)
      (herr : (input.require l).result = .error err) : Raises input e err
  | notBoolean : Raises input e (Error.evaluation .notBoolean)
  | incomparable (s t : Ty) : Raises input e (Error.evaluation (.incomparable s t))
  | refused {ty : Ty} {v : Value} {err : Error} (hty : ty ∈ e.target?)
      (herr : ty.convert v = .error err) : Raises input e err

/-- What the parts of a node can fail with: one fails, or it is a condition and no boolean. -/
def RaisedBelow (input : Input) (parts : List Expr) (err : Error) : Prop :=
  (∃ x ∈ parts, (x.eval input).result = .error err) ∨ err = Error.evaluation .notBoolean

variable {input : Input} {err : Error}

theorem RaisedBelow.mono {xs ys : List Expr} (h : RaisedBelow input xs err) (hsub : xs ⊆ ys) :
    RaisedBelow input ys err := by
  rcases h with ⟨x, hx, herr⟩ | herr
  · exact Or.inl ⟨x, hsub hx, herr⟩
  · exact Or.inr herr

theorem require_error {lookup : Lookup} (h : (input.require lookup).result = .error err) :
    input.answer? lookup = none ∧ ∃ reason, err = Error.evaluation reason := by
  unfold Input.require at h
  dsimp only at h
  split at h
  · cases h
  · rename_i hnone
    cases h
    exact ⟨hnone, _, rfl⟩

private theorem apply_error {op : Comparison} {v w : Value} (h : op.apply v w = .error err) :
    ∃ s t, err = Error.evaluation (.incomparable s t) := by
  unfold Comparison.apply at h
  split at h
  · cases h
  · split at h
    · cases h
    · cases h
      exact ⟨_, _, rfl⟩

private theorem settle_error {ty : Option Ty} {v : Value} (h : Ty.settle ty v = .error err) :
    ∃ t ∈ ty, t.convert v = .error err := by
  cases ty with
  | none => cases h
  | some t => exact ⟨t, rfl, h⟩

private theorem bind_truth_error {α : Type} {o : Outcome Value} {f : Option Bool → Outcome α}
    (h : (o >>= fun v => Outcome.ofResult v.truth >>= f).result = .error err) :
    o.result = .error err ∨ err = Error.evaluation .notBoolean ∨
      ∃ truth, (f truth).result = .error err := by
  rcases Outcome.result_bind_error.mp h with ho | ⟨v, -, h⟩
  · exact Or.inl ho
  · rcases Outcome.result_bind_error.mp h with htruth | ⟨truth, -, h⟩
    · refine Or.inr (Or.inl ?_)
      cases v <;> cases htruth <;> rfl
    · exact Or.inr (Or.inr ⟨truth, h⟩)

private theorem evalOperands_error {decisive sawNull : Bool} {xs : List Expr}
    (h : (evalOperands input decisive sawNull xs).result = .error err) :
    RaisedBelow input xs err := by
  induction xs generalizing sawNull with
  | nil => cases h
  | cons x xs ih =>
      rw [evalOperands_cons] at h
      rcases bind_truth_error h with hx | htruth | ⟨_ | b, h⟩
      · exact Or.inl ⟨x, List.mem_cons_self, hx⟩
      · exact Or.inr htruth
      · exact (ih h).mono (List.subset_cons_self x xs)
      · dsimp only at h
        split at h
        · cases h
        · exact (ih h).mono (List.subset_cons_self x xs)

private theorem evalWhens_error {whens : List (When Expr)}
    (h : (evalWhens input whens).result = .error err) :
    RaisedBelow input (whenParts whens) err := by
  induction whens with
  | nil => cases h
  | cons w ws ih =>
      have hlater (h : (evalWhens input ws).result = .error err) :
          RaisedBelow input (whenParts (w :: ws)) err :=
        (ih h).mono (List.subset_append_right [w.condition, w.result] _)
      rw [evalWhens_cons] at h
      rcases bind_truth_error h with hc | htruth | ⟨_ | _ | _, h⟩
      · exact Or.inl ⟨w.condition, by simp [whenParts], hc⟩
      · exact Or.inr htruth
      · exact hlater h
      · exact hlater h
      · rcases Outcome.result_bind_error.mp h with hr | ⟨v, -, h⟩
        · exact Or.inl ⟨w.result, by simp [whenParts], hr⟩
        · cases h

private theorem evalBranches_error {whens : List (When Expr)} {otherwise : Option Expr}
    {ty : Option Ty} (h : (evalBranches input whens otherwise).result = .error err) :
    RaisedBelow input (case whens otherwise ty).children err := by
  rcases Outcome.result_bind_error.mp h with h | ⟨choice, -, h⟩
  · exact (evalWhens_error h).mono (List.subset_append_left _ _)
  · cases choice with
    | some v => cases h
    | none =>
        cases otherwise with
        | none => cases h
        | some x => exact Or.inl ⟨x, otherwise_mem_children rfl, h⟩

private theorem RaisedBelow.orRaises {e : Expr} (h : RaisedBelow input e.children err) :
    (∃ x ∈ e.children, (x.eval input).result = .error err) ∨ e.Raises input err := by
  rcases h with hpart | rfl
  · exact Or.inl hpart
  · exact Or.inr .notBoolean

theorem eval_error {e : Expr} (h : (e.eval input).result = .error err) :
    (∃ x ∈ e.children, (x.eval input).result = .error err) ∨ e.Raises input err := by
  cases e with
  | val v => cases h
  | arg position | col name ty => exact Or.inr (.unanswered rfl h)
  | and xs | or xs => exact (evalOperands_error h).orRaises
  | cmp op l r =>
      rcases Outcome.result_bind_error.mp h with hl | ⟨v, -, h⟩
      · exact Or.inl ⟨l, by simp [children], hl⟩
      · rcases Outcome.result_bind_error.mp h with hr | ⟨w, -, h⟩
        · exact Or.inl ⟨r, by simp [children], hr⟩
        · obtain ⟨s, t, rfl⟩ := apply_error h
          exact Or.inr (.incomparable s t)
  | case whens otherwise ty =>
      rw [eval_case] at h
      rcases Outcome.result_bind_error.mp h with h | ⟨v, -, h⟩
      · exact (evalBranches_error h).orRaises
      · obtain ⟨t, ht, herr⟩ := settle_error h
        exact Or.inr (.refused ht herr)
  | cast x ty =>
      rcases Outcome.result_bind_error.mp h with hx | ⟨v, -, h⟩
      · exact Or.inl ⟨x, by simp [children], hx⟩
      · exact Or.inr (.refused rfl h)
  | isNull negated x =>
      rcases Outcome.result_bind_error.mp h with hx | ⟨v, -, h⟩
      · exact Or.inl ⟨x, by simp [children], hx⟩
      · cases h
  | not x =>
      rcases bind_truth_error h with hx | rfl | ⟨truth, h⟩
      · exact Or.inl ⟨x, by simp [children], hx⟩
      · exact Or.inr .notBoolean
      · cases h

/-- The error of an evaluation is one that some node raises. -/
theorem exists_raises {e : Expr} (h : (e.eval input).result = .error err) :
    ∃ x ∈ e.subterms, x.Raises input err := by
  induction e using induct with
  | node e ih =>
      rcases eval_error h with ⟨x, hx, herr⟩ | hraised
      · obtain ⟨y, hy, hraised⟩ := ih x hx herr
        exact ⟨y, mem_subterms_of_child hx hy, hraised⟩
      · exact ⟨e, e.self_mem_subterms, hraised⟩

theorem Raises.raisedBy {e : Expr} (h : e.Raises input err) : e.RaisedBy err := by
  cases h with
  | unanswered hl herr => exact Or.inl (require_error herr).2
  | notBoolean => exact Or.inl ⟨_, rfl⟩
  | incomparable s t => exact Or.inl ⟨_, rfl⟩
  | refused hty herr => exact Or.inr ⟨_, hty, _, herr⟩

/-- A type that says nothing takes every value, so it is not the target of a failed conversion. -/
theorem RaisedBy.kind {e : Expr} (h : e.RaisedBy err) :
    (∃ reason, err = Error.evaluation reason) ∨
      err.isConversion = true ∧ ∃ ty ∈ e.target?, ty.isIndeterminate = false := by
  refine h.imp id ?_
  rintro ⟨ty, hty, v, hv⟩
  refine ⟨Ty.isConversion_of_convert_error hv, ty, hty, ?_⟩
  rw [Bool.eq_false_iff]
  intro hindeterminate
  rw [Ty.convert_of_isIndeterminate hindeterminate] at hv
  cases hv

/-- The expression fails: where its value is asked for, as a condition, or as a CASE by itself. -/
def FailsWith (e : Expr) (input : Input) (err : Error) : Prop :=
  (e.eval input).result = .error err ∨ (e.evalBool input).result = .error err ∨
    ∃ c : Case, e.case? = some c ∧ (c.toExpr.eval input).result = .error err

theorem toExpr_of_case? {e : Expr} {c : Case} (h : e.case? = some c) : c.toExpr = e := by
  cases e <;> cases h
  rfl

theorem FailsWith.traced {e : Expr} (h : e.FailsWith input err) :
    err = Error.evaluation .notBoolean ∨ ∃ x ∈ e.subterms, x.Raises input err := by
  rcases h with h | h | ⟨c, hc, h⟩
  · exact Or.inr (exists_raises h)
  · rcases bind_truth_error h with h | htruth | ⟨truth, h⟩
    · exact Or.inr (exists_raises h)
    · exact Or.inl htruth
    · cases h
  · rw [toExpr_of_case? hc] at h
    exact Or.inr (exists_raises h)

private theorem FailsWith.raised {e : Expr} (h : e.FailsWith input err) :
    (∃ reason, err = Error.evaluation reason) ∨ ∃ x ∈ e.subterms, x.RaisedBy err :=
  h.traced.imp (fun htruth => ⟨_, htruth⟩) fun ⟨x, hx, hraises⟩ => ⟨x, hx, hraises.raisedBy⟩

/--
An expression fails because a node has no value, or because a conversion fails, and with no other
kind of error. It can be a conversion only if the expression has a cast to a type that says
something, or a CASE that carries one.
-/
theorem kind_of_failsWith {e : Expr} (h : e.FailsWith input err) :
    (err.isEvaluation = true ∨ err.isConversion = true) ∧
      (err.isConversion = true →
        ∃ x ∈ e.subterms, ∃ ty ∈ x.target?, ty.isIndeterminate = false) := by
  have hkind : (∃ reason, err = Error.evaluation reason) ∨ err.isConversion = true ∧
      ∃ x ∈ e.subterms, ∃ ty ∈ x.target?, ty.isIndeterminate = false := by
    rcases h.raised with hreason | ⟨x, hx, hraised⟩
    · exact Or.inl hreason
    · exact hraised.kind.imp id fun ⟨hconversion, hty⟩ => ⟨hconversion, x, hx, hty⟩
  rcases hkind with ⟨reason, rfl⟩ | ⟨hconversion, htarget⟩
  · exact ⟨Or.inl rfl, nofun⟩
  · exact ⟨Or.inr hconversion, fun _ => htarget⟩

/-- A column that is not bound, behind a CASE whose result is a text that is no number. -/
def refusedBranch : Expr :=
  .or [.isNull true (.case [⟨.col "flag" .bool, .val (.string "x")⟩] none (some .i64)),
    .col "missing" .bool]

theorem kind_of_failsWith_refusedBranch :
    (∃ err, refusedBranch.FailsWith (Row.ofBindings [("flag", .bool true)] []).toInput err ∧
      err.isConversion = true ∧
      ∃ x ∈ refusedBranch.subterms, ∃ ty ∈ x.target?, ty.isIndeterminate = false) ∧
    ∃ err, refusedBranch.FailsWith (Row.ofBindings [("flag", .bool false)] []).toInput err ∧
      err.isConversion = false ∧ (err.isEvaluation = true ∨ err.isConversion = true) := by
  have hrefused : ∃ err, (refusedBranch.eval
      (Row.ofBindings [("flag", .bool true)] []).toInput).result = .error err ∧
        err.isConversion = true := ⟨_, rfl, rfl⟩
  have hmissing : (refusedBranch.evalBool
      (Row.ofBindings [("flag", .bool false)] []).toInput).result =
        .error (Error.evaluation (.unresolvedColumn "missing")) := rfl
  obtain ⟨err, herr, hconversion⟩ := hrefused
  exact ⟨⟨err, Or.inl herr, hconversion, (kind_of_failsWith (Or.inl herr)).2 hconversion⟩,
    _, Or.inr (Or.inl hmissing), rfl, (kind_of_failsWith (Or.inr (Or.inl hmissing))).1⟩

end Expr

end QueryExpr
