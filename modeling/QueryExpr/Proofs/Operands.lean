import QueryExpr.Proofs.Conversion
import QueryExpr.Proofs.Outcome

/-!
# Operands of a connective

How a connective evaluates its operands: what comes first is finished first, a constant that cannot
decide anything is skipped, one that decides fixes the value, and the operands of an operand with
the same connective may stand in its place.
-/

namespace QueryExpr

/-- What is left to do after a truth value may be taken apart one truth value at a time. -/
theorem Outcome.bind_truth {α β : Type} (o : Outcome Value) {f : Option Bool → Outcome α}
    {next : α → Outcome β} {g : Option Bool → Outcome β} (h : ∀ truth, g truth = f truth >>= next) :
    (o >>= fun v => ofResult v.truth >>= g) =
      (o >>= fun v => ofResult v.truth >>= f) >>= next := by
  rw [bind_assoc]
  congr 1
  funext v
  rw [bind_assoc]
  congr 1
  funext truth
  exact h truth

namespace Expr

variable (input : Input) (decisive : Bool)

theorem evalOperands_cons (sawNull : Bool) (x : Expr) (xs : List Expr) :
    evalOperands input decisive sawNull (x :: xs) =
      (x.eval input >>= fun v => Outcome.ofResult v.truth >>= fun truth =>
        match truth with
        | some b =>
            if b = decisive then pure (.bool b) else evalOperands input decisive sawNull xs
        | none => evalOperands input decisive true xs) := rfl

theorem evalOperands_cons_of_ok {x : Expr} {truth : Option Bool} {v : Value} (sawNull : Bool)
    (xs : List Expr) (hx : (x.eval input).result = .ok v) (hv : v.truth = .ok truth) :
    evalOperands input decisive sawNull (x :: xs) =
      (x.eval input >>= fun _ =>
        match truth with
        | some b =>
            if b = decisive then pure (.bool b) else evalOperands input decisive sawNull xs
        | none => evalOperands input decisive true xs) := by
  rw [evalOperands_cons]
  apply Outcome.bind_congr_ok
  intro w hw
  rw [hx, Except.ok.injEq] at hw
  subst hw
  rw [hv, Outcome.ofResult_ok, pure_bind]

theorem eq_of_isTruth {truth : Bool} {x : Expr} (h : x.isTruth truth = true) :
    x = val (.bool truth) := by
  cases x with
  | val v => cases v <;> simp_all [isTruth]
  | _ => simp [isTruth] at h

theorem truth_ok {v : Value} {truth : Option Bool} (h : v.truth = .ok truth) :
    v = Value.ofTruth truth := by
  cases v <;> simp only [Value.truth, Except.ok.injEq, reduceCtorEq] at h <;> subst h <;> rfl

theorem truth_ofTruth (truth : Option Bool) : (Value.ofTruth truth).truth = .ok truth := by
  cases truth <;> rfl

theorem evalOperands_ok {sawNull : Bool} {xs : List Expr} {v : Value}
    (h : (evalOperands input decisive sawNull xs).result = .ok v) :
    ∃ truth, v = Value.ofTruth truth := by
  induction xs generalizing sawNull with
  | nil =>
      simp only [evalOperands, Outcome.result_pure, Except.ok.injEq] at h
      subst h
      cases sawNull
      · exact ⟨some (!decisive), rfl⟩
      · exact ⟨none, rfl⟩
  | cons x xs ih =>
      rw [evalOperands_cons] at h
      obtain ⟨w, -, h⟩ := Outcome.result_bind_ok.mp h
      obtain ⟨truth, -, h⟩ := Outcome.result_bind_ok.mp h
      rcases truth with _ | b
      · exact ih h
      · dsimp only at h
        split at h
        · rw [Outcome.result_pure, Except.ok.injEq] at h
          exact ⟨some b, h.symm⟩
        · exact ih h

/-- Finishing the first operands, and going on only if they decided nothing. -/
theorem evalOperands_append (sawNull : Bool) (xs ys : List Expr) :
    evalOperands input decisive sawNull (xs ++ ys) =
      evalOperands input decisive sawNull xs >>= fun v =>
        if v = .bool decisive then pure v else evalOperands input decisive v.isNull ys := by
  induction xs generalizing sawNull with
  | nil =>
      rw [List.nil_append, evalOperands, pure_bind]
      cases sawNull <;> simp [Value.isNull]
  | cons x xs ih =>
      rw [List.cons_append, evalOperands_cons, evalOperands_cons]
      apply Outcome.bind_truth
      intro truth
      cases truth with
      | none => exact ih true
      | some b =>
          dsimp only
          by_cases hb : b = decisive
          · rw [if_pos hb, if_pos hb, pure_bind, hb, if_pos rfl]
          · rw [if_neg hb, if_neg hb]
            exact ih sawNull

theorem evalOperands_true (xs : List Expr) :
    evalOperands input decisive true xs =
      evalOperands input decisive false xs >>= fun v =>
        if v = .bool decisive then pure v else pure .null := by
  induction xs with
  | nil =>
      rw [evalOperands, evalOperands, pure_bind]
      simp
  | cons x xs ih =>
      rw [evalOperands_cons, evalOperands_cons]
      apply Outcome.bind_truth
      intro truth
      cases truth with
      | none =>
          dsimp only
          rw [ih, bind_assoc]
          congr 1
          funext w
          by_cases hw : w = .bool decisive
          · rw [if_pos hw, pure_bind, if_pos hw]
          · rw [if_neg hw, pure_bind, if_neg (by simp)]
      | some b =>
          dsimp only
          by_cases hb : b = decisive
          · rw [if_pos hb, if_pos hb, pure_bind, hb, if_pos rfl]
          · rw [if_neg hb, if_neg hb]
            exact ih

/-- The operands of an operand with the same connective may stand in its place. -/
theorem evalOperands_splice {x : Expr} {ys : List Expr}
    (hx : x.eval input = evalOperands input decisive false ys) (sawNull : Bool)
    (xs : List Expr) :
    evalOperands input decisive sawNull (x :: xs) =
      evalOperands input decisive sawNull (ys ++ xs) := by
  rw [evalOperands_append, evalOperands_cons, hx]
  cases sawNull with
  | false =>
      apply Outcome.bind_congr_ok
      intro v hv
      obtain ⟨truth, rfl⟩ := evalOperands_ok input decisive hv
      rw [truth_ofTruth, Outcome.ofResult_ok, pure_bind]
      rcases truth with _ | b
      · rfl
      · simp [Value.ofTruth, Value.isNull]
  | true =>
      rw [evalOperands_true input decisive ys, bind_assoc]
      apply Outcome.bind_congr_ok
      intro v hv
      obtain ⟨truth, rfl⟩ := evalOperands_ok input decisive hv
      rw [truth_ofTruth, Outcome.ofResult_ok, pure_bind]
      rcases truth with _ | b
      · simp [Value.ofTruth, Value.isNull]
      · by_cases hb : b = decisive <;> simp [Value.ofTruth, Value.isNull, hb]

theorem evalOperands_decided {sawNull : Bool} {xs : List Expr} {v : Value}
    (hx : val (.bool decisive) ∈ xs)
    (h : (evalOperands input decisive sawNull xs).result = .ok v) : v = .bool decisive := by
  induction xs generalizing sawNull with
  | nil => simp at hx
  | cons x xs ih =>
      rcases List.mem_cons.mp hx with rfl | hx
      · have htruth : (Value.bool decisive).truth = .ok (some decisive) := rfl
        rw [evalOperands_cons_of_ok input decisive sawNull xs rfl htruth] at h
        simp only [if_pos, eval, pure_bind, Outcome.result_pure, Except.ok.injEq] at h
        exact h.symm
      · rw [evalOperands_cons] at h
        obtain ⟨w, -, h⟩ := Outcome.result_bind_ok.mp h
        obtain ⟨truth, -, h⟩ := Outcome.result_bind_ok.mp h
        rcases truth with _ | b
        · exact ih hx h
        · dsimp only at h
          split at h
          · rename_i hb
            rw [Outcome.result_pure, Except.ok.injEq] at h
            rw [← h, hb]
          · exact ih hx h

theorem evalOperands_filter (sawNull : Bool) (xs : List Expr) :
    evalOperands input decisive sawNull (xs.filter fun x => !x.isTruth (!decisive)) =
      evalOperands input decisive sawNull xs := by
  induction xs generalizing sawNull with
  | nil => rfl
  | cons x xs ih =>
      cases hx : x.isTruth (!decisive) with
      | false =>
          rw [List.filter_cons_of_pos (by simp [hx]), evalOperands_cons, evalOperands_cons]
          simp only [ih]
      | true =>
          rw [List.filter_cons_of_neg (by simp [hx]), ih, evalOperands_cons]
          rw [eq_of_isTruth hx]
          simp [eval, Value.truth]

theorem evalOperands_singleton (x : Expr) :
    (evalOperands input decisive false [x]).RefinedBy (x.eval input) := by
  rw [evalOperands_cons]
  apply Outcome.RefinedBy.of_bind
  intro w v _ hv
  obtain ⟨truth, htruth, hv⟩ := Outcome.result_bind_ok.mp hv
  rw [truth_ok htruth]
  rcases truth with _ | b
  · simpa [evalOperands, Value.ofTruth] using hv
  · dsimp only at hv
    split at hv
    · simpa [Value.ofTruth] using hv
    · rename_i hb
      have : (!decisive) = b := by cases b <;> cases decisive <;> simp_all
      simpa [evalOperands, Value.ofTruth, this] using hv

end Expr

end QueryExpr
