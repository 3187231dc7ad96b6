import QueryExpr.Proofs.Lookups

/-!
# Evaluation depends on what it looks up

An evaluation sees its input through the answers to its look-ups only. So on another input with the
same answers, missing ones included, it asks the same questions and comes to the same result.
-/

namespace QueryExpr

namespace Input

/-- The second input answers these look-ups as the first does, and none that the first does not. -/
def Agrees (i j : Input) (lookups : List Lookup) : Prop :=
  ∀ l ∈ lookups, j.answer? l = i.answer? l

instance (i j : Input) (lookups : List Lookup) : Decidable (i.Agrees j lookups) :=
  inferInstanceAs (Decidable (∀ l ∈ lookups, j.answer? l = i.answer? l))

theorem require_congr {i j : Input} {lookup : Lookup}
    (h : j.answer? lookup = i.answer? lookup) : j.require lookup = i.require lookup := by
  unfold require
  rw [h]

end Input

/-- Where the inputs agree on what was looked up, the second outcome is the first. -/
theorem Outcome.congruence_agrees (i j : Input) :
    Congruence fun o p => i.Agrees j o.lookups → p = o where
  refl _ _ := rfl
  bind := by
    intro α β o p f g hop hfg h
    rw [lookups_bind] at h
    have ho : i.Agrees j o.lookups := fun l hl => h l (List.mem_append_left _ hl)
    rw [hop ho]
    apply bind_congr_ok
    intro a ha
    rw [ha] at h
    exact hfg a fun l hl => h l (List.mem_append_right _ hl)

namespace Expr

theorem eval_of_agrees {i j : Input} {e : Expr} (h : i.Agrees j (e.eval i).lookups) :
    e.eval j = e.eval i := by
  induction e using induct with
  | node e ih =>
      cases e with
      | arg position => exact Input.require_congr (h _ (List.mem_singleton_self _))
      | col name ty => exact Input.require_congr (h _ (List.mem_singleton_self _))
      | _ =>
          have hnode := eval_mapChildren (Outcome.congruence_agrees i j) rfl (f := id)
            fun x hx => ih x hx
          rw [mapChildren_id] at hnode
          exact hnode h

/--
The look-ups of an evaluation are some of the columns and arguments of the expression, in their
order. They determine the outcome: an input with the same answers makes the same look-ups and leads
to the same value or error. A constant is an expression without columns and arguments, so it asks
for nothing and has one result.
-/
theorem eval_determined (e : Expr) (i j : Input) :
    (e.eval i).lookups.Sublist e.occurrences ∧
      (i.Agrees j (e.eval i).lookups →
        (e.eval j).lookups = (e.eval i).lookups ∧ (e.eval j).result = (e.eval i).result) ∧
      (e.isConst = true ↔ e.occurrences = []) ∧
      (e.isConst = true → (e.eval i).lookups = [] ∧ (e.eval j).result = (e.eval i).result) := by
  refine ⟨lookups_sublist_occurrences i e, fun h => ?_, isConst_iff, fun hconst => ?_⟩
  · rw [eval_of_agrees h]
    exact ⟨rfl, rfl⟩
  · rw [eval_of_isConst hconst i, eval_of_isConst hconst j]
    exact ⟨rfl, rfl⟩

/-- A conjunction that gets as far as the column `b`. -/
def comparedColumn : Expr :=
  and [col "a" .bool, cmp .lt (col "b" .i64) (arg 0), isNull false (arg 1)]

/-- A constant that fails. -/
def refusedNegation : Expr := not (val (.i64 5))

theorem eval_determined_missingColumn :
    let i := Row.toInput ⟨[("a", .bool true)], [.i64 1, .null]⟩
    let j := Row.toInput ⟨[("c", .null), ("a", .bool true)], []⟩
    i.Agrees j (comparedColumn.eval i).lookups ∧
      (comparedColumn.eval j).lookups = (comparedColumn.eval i).lookups ∧
      (comparedColumn.eval j).result = (comparedColumn.eval i).result ∧
      refusedNegation.isConst = true ∧ (refusedNegation.eval i).lookups = [] ∧
      (refusedNegation.eval j).result = (refusedNegation.eval i).result := by
  intro i j
  have hagrees : i.Agrees j (comparedColumn.eval i).lookups := by decide
  obtain ⟨hlookups, hresult⟩ := (eval_determined comparedColumn i j).2.1 hagrees
  obtain ⟨hnone, hconstant⟩ := (eval_determined refusedNegation i j).2.2.2 rfl
  exact ⟨hagrees, hlookups, hresult, rfl, hnone, hconstant⟩

end Expr

end QueryExpr
