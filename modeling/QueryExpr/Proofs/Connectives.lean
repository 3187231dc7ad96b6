import QueryExpr.Proofs.Operands

/-!
# Laws of the connectives

AND and OR are each other's mirror image under negation: the mirrored operands are evaluated in the
same order and stopped at in the same place, so even failures and look-ups are the same. The order
of the operands decides which of them are evaluated, and so whether a failing one is met; but where
two orders both lead to a value, it is one value, fixed by what the operands are worth.
-/

namespace QueryExpr.Expr

section Duality

variable (input : Input) (decisive : Bool)

private theorem evalOperands_cons_not (sawNull : Bool) (x : Expr) (xs : List Expr) :
    evalOperands input decisive sawNull (not x :: xs) =
      (x.eval input >>= fun v => Outcome.ofResult v.truth >>= fun truth =>
        match truth with
        | some b =>
            if (!b) = decisive then pure (.bool (!b)) else evalOperands input decisive sawNull xs
        | none => evalOperands input decisive true xs) := by
  rw [evalOperands_cons]
  symm
  apply Outcome.bind_truth
  intro truth
  rw [pure_bind, truth_ofTruth, Outcome.ofResult_ok, pure_bind]
  cases truth <;> rfl

/-- The other connective of the negated operands does what the negated connective does. -/
theorem evalOperands_map_not (sawNull : Bool) (xs : List Expr) :
    evalOperands input (!decisive) sawNull (xs.map not) =
      evalOperands input decisive sawNull xs >>= fun v =>
        Outcome.ofResult v.truth >>= fun truth => pure (Value.ofTruth (truth.map (!·))) := by
  induction xs generalizing sawNull with
  | nil =>
      rw [List.map_nil, evalOperands, evalOperands, pure_bind]
      cases sawNull <;> rfl
  | cons x xs ih =>
      rw [List.map_cons, evalOperands_cons_not, evalOperands_cons]
      apply Outcome.bind_truth
      intro truth
      cases truth with
      | none => exact ih true
      | some b =>
          dsimp only
          by_cases hb : b = decisive
          · rw [if_pos hb, if_pos (congrArg (!·) hb), pure_bind]
            rfl
          · rw [if_neg hb, if_neg fun h => hb (Bool.not_inj h)]
            exact ih sawNull

/-- Negation exchanges AND and OR, with the same value or error and the same look-ups. -/
theorem eval_not_connective (xs : List Expr) :
    (not (and xs)).eval input = (or (xs.map not)).eval input ∧
      (not (or xs)).eval input = (and (xs.map not)).eval input :=
  ⟨(evalOperands_map_not input false false xs).symm,
    (evalOperands_map_not input true false xs).symm⟩

end Duality

section Order

variable {input : Input} {decisive : Bool} {x : Expr} {xs ys : List Expr} {s t : Option Bool}

/-- The expression evaluates to the truth value. -/
def Yields (input : Input) (truth : Option Bool) (x : Expr) : Prop :=
  (x.eval input).result = .ok (Value.ofTruth truth)

private theorem ofTruth_inj (h : Value.ofTruth s = Value.ofTruth t) : s = t := by
  have htruth := truth_ofTruth s
  rw [h, truth_ofTruth] at htruth
  exact (Except.ok.inj htruth).symm

theorem Yields.unique (hs : Yields input s x) (ht : Yields input t x) : s = t :=
  ofTruth_inj (Except.ok.inj (hs.symm.trans ht))

/--
What operands are worth together, however they are ordered: one of them decides, or none does and
one is unknown, or all have the truth value that decides nothing.
-/
inductive Verdict (input : Input) (decisive : Bool) (operands : List Expr) : Option Bool → Prop
  | decided {x : Expr} (hx : x ∈ operands) (hdecides : Yields input (some decisive) x) :
      Verdict input decisive operands (some decisive)
  | unknown {x : Expr} (hx : x ∈ operands) (hnull : Yields input none x)
      (hopen : ∀ y ∈ operands, ¬ Yields input (some decisive) y) :
      Verdict input decisive operands none
  | neutral (hneutral : ∀ y ∈ operands, Yields input (some (!decisive)) y) :
      Verdict input decisive operands (some (!decisive))

namespace Verdict

private theorem not_decides_of_neutral (h : Yields input (some (!decisive)) x) :
    ¬ Yields input (some decisive) x := by
  intro hdecides
  have hsame := h.unique hdecides
  cases decisive <;> cases hsame

theorem not_decides (h : Verdict input decisive xs t) (ht : t ≠ some decisive) :
    ∀ y ∈ xs, ¬ Yields input (some decisive) y := by
  cases h with
  | decided => exact absurd rfl ht
  | unknown _ _ hopen => exact hopen
  | neutral hneutral => exact fun y hy => not_decides_of_neutral (hneutral y hy)

theorem unique (hs : Verdict input decisive xs s) (ht : Verdict input decisive xs t) : s = t := by
  cases hs with
  | decided hx hdecides =>
      by_cases hsame : t = some decisive
      · exact hsame.symm
      · exact absurd hdecides (ht.not_decides hsame _ hx)
  | unknown hx hnull hopen =>
      cases ht with
      | decided hy hdecides => exact absurd hdecides (hopen _ hy)
      | unknown => rfl
      | neutral hneutral => exact hnull.unique (hneutral _ hx)
  | neutral hneutral =>
      cases ht with
      | decided hy hdecides => exact absurd hdecides (not_decides_of_neutral (hneutral _ hy))
      | unknown hy hnull => exact (hneutral _ hy).unique hnull
      | neutral => rfl

theorem of_mem_iff (hmem : ∀ y, y ∈ xs ↔ y ∈ ys) (h : Verdict input decisive xs t) :
    Verdict input decisive ys t := by
  cases h with
  | decided hx hdecides => exact .decided ((hmem _).mp hx) hdecides
  | unknown hx hnull hopen =>
      exact .unknown ((hmem _).mp hx) hnull fun y hy => hopen y ((hmem y).mpr hy)
  | neutral hneutral => exact .neutral fun y hy => hneutral y ((hmem y).mpr hy)

theorem cons_neutral (hx : Yields input (some (!decisive)) x) (h : Verdict input decisive xs t) :
    Verdict input decisive (x :: xs) t := by
  cases h with
  | decided hy hdecides => exact .decided (List.mem_cons_of_mem x hy) hdecides
  | unknown hy hnull hopen =>
      refine .unknown (List.mem_cons_of_mem x hy) hnull ?_
      exact List.forall_mem_cons.mpr ⟨not_decides_of_neutral hx, hopen⟩
  | neutral hneutral => exact .neutral (List.forall_mem_cons.mpr ⟨hx, hneutral⟩)

theorem cons_unknown (hx : Yields input none x) (h : Verdict input decisive xs t) :
    Verdict input decisive (x :: xs) (if t = some decisive then t else none) := by
  by_cases ht : t = some decisive
  · rw [if_pos ht]
    cases h with
    | decided hy hdecides => exact .decided (List.mem_cons_of_mem x hy) hdecides
    | unknown => cases ht
    | neutral => cases decisive <;> cases ht
  · rw [if_neg ht]
    refine .unknown List.mem_cons_self hx (List.forall_mem_cons.mpr ⟨?_, h.not_decides ht⟩)
    intro hdecides
    cases hx.unique hdecides

end Verdict

private theorem recall_unknown (t : Option Bool) :
    (if Value.ofTruth t = .bool decisive then pure (Value.ofTruth t) else pure .null) =
      (pure (Value.ofTruth (if t = some decisive then t else none)) : Outcome Value) := by
  have hdecides : Value.ofTruth t = .bool decisive ↔ t = some decisive :=
    ⟨fun hvalue => ofTruth_inj hvalue, fun ht => congrArg Value.ofTruth ht⟩
  by_cases ht : t = some decisive
  · rw [if_pos (hdecides.mpr ht), if_pos ht]
  · rw [if_neg ((not_congr hdecides).mpr ht), if_neg ht]
    rfl

/-- A connective that has a value has the one that its operands are worth together. -/
theorem verdict_of_evalOperands {v : Value}
    (h : (evalOperands input decisive false xs).result = .ok v) :
    ∃ truth, v = Value.ofTruth truth ∧ Verdict input decisive xs truth := by
  induction xs generalizing v with
  | nil =>
      cases h
      exact ⟨some (!decisive), rfl, .neutral fun y hy => absurd hy List.not_mem_nil⟩
  | cons x xs ih =>
      rw [evalOperands_cons] at h
      obtain ⟨w, hw, h⟩ := Outcome.result_bind_ok.mp h
      obtain ⟨truth, htruth, h⟩ := Outcome.result_bind_ok.mp h
      have hx : Yields input truth x := by rw [Yields, hw, truth_ok htruth]
      cases truth with
      | none =>
          -- What follows a null is evaluated without it, and the null is put back at the end.
          dsimp only at h
          rw [evalOperands_true] at h
          obtain ⟨u, hu, h⟩ := Outcome.result_bind_ok.mp h
          obtain ⟨rest, rfl, hrest⟩ := ih hu
          rw [recall_unknown] at h
          cases h
          exact ⟨_, rfl, hrest.cons_unknown hx⟩
      | some b =>
          dsimp only at h
          by_cases hb : b = decisive
          · rw [if_pos hb] at h
            cases h
            subst hb
            exact ⟨some b, rfl, .decided List.mem_cons_self hx⟩
          · rw [if_neg hb] at h
            rw [Bool.eq_not_of_ne hb] at hx
            obtain ⟨rest, hv, hrest⟩ := ih h
            exact ⟨rest, hv, hrest.cons_neutral hx⟩

/--
Two orders of the same operands that both lead to a value lead to the same one, no matter which
operands, failing ones among them, each of them leaves out.
-/
theorem eval_perm (h : xs.Perm ys) (input : Input) {v w : Value} :
    (((and xs).eval input).result = .ok v → ((and ys).eval input).result = .ok w → v = w) ∧
      (((or xs).eval input).result = .ok v → ((or ys).eval input).result = .ok w → v = w) := by
  have hsame : ∀ decisive, (evalOperands input decisive false xs).result = .ok v →
      (evalOperands input decisive false ys).result = .ok w → v = w := by
    intro decisive hv hw
    obtain ⟨s, rfl, hs⟩ := verdict_of_evalOperands hv
    obtain ⟨t, rfl, ht⟩ := verdict_of_evalOperands hw
    rw [(hs.of_mem_iff fun _ => h.mem_iff).unique ht]
  exact ⟨hsame false, hsame true⟩

/-- An operand that decides, in front of a failing one and a null. -/
def decidedEarly (decides : Expr) : List Expr := [decides, not (val (.string "x")), val .null]

/-- The same operands with the null in front. -/
def decidedLate (decides : Expr) : List Expr := [val .null, decides, not (val (.string "x"))]

theorem eval_perm_skipped :
    let i := Row.toInput ⟨[("off", .bool false), ("on", .bool true)], []⟩
    let off := col "off" .bool
    let on := col "on" .bool
    (decidedEarly off).Perm (decidedLate off) ∧
      ((and (decidedEarly off)).eval i).result = .ok (.bool false) ∧
      (∀ v, ((and (decidedLate off)).eval i).result = .ok v → .bool false = v) ∧
      ((or (decidedEarly on)).eval i).result = .ok (.bool true) ∧
      (∀ v, ((or (decidedLate on)).eval i).result = .ok v → .bool true = v) ∧
      ((and (decidedLate off)).eval i).result = .ok (.bool false) ∧
      ((or (decidedLate on)).eval i).result = .ok (.bool true) := by
  intro i off on
  have hperm : ∀ x, (decidedEarly x).Perm (decidedLate x) := by
    intro x
    change ([x, not (val (.string "x"))] ++ [val .null]).Perm _
    exact List.perm_append_comm
  exact ⟨hperm off, rfl, fun _ => (eval_perm (hperm off) i).1 rfl, rfl,
    fun _ => (eval_perm (hperm on) i).2 rfl, rfl, rfl⟩

end Order

end QueryExpr.Expr
