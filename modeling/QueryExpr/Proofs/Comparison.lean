import QueryExpr.Proofs.Outcome

/-!
# Comparing the other way round

The order of two values is reversed when they change places, doubles and mixed numbers included. So
a comparison and the swapped one of the swapped operands have the same value, and where one of them
has none the other has none either.
-/

namespace QueryExpr

theorem Double.compare?_swap (x y : Double) :
    y.compare? x = (x.compare? y).map Ordering.swap := by
  unfold Double.compare?
  rw [Bool.or_comm]
  split
  · rfl
  · rw [Option.map_some, Std.OrientedOrd.eq_swap]

theorem Value.compare?_swap (v w : Value) :
    w.compare? v = (v.compare? w).map Ordering.swap := by
  have horder {α : Type} [Ord α] [Std.OrientedOrd α] (a b : α) :
      some (compare b a) = (some (compare a b)).map Ordering.swap := by
    rw [Option.map_some, Std.OrientedOrd.eq_swap]
  cases v <;> cases w <;> first | rfl | exact horder _ _ | exact Double.compare?_swap _ _

namespace Comparison

theorem apply_swap {op : Comparison} {v w u : Value} (h : op.apply v w = .ok u) :
    op.swap.apply w v = .ok u := by
  unfold Comparison.apply at h ⊢
  rw [Bool.or_comm, Value.compare?_swap v w]
  split at h
  · rwa [if_pos ‹_›]
  · rw [if_neg ‹_›]
    cases horder : v.compare? w with
    | none => simp [horder] at h
    | some order =>
        rw [horder] at h
        rw [← h, Option.map_some]
        simp only [holds_swap]

theorem apply_swap_eq_ok_iff {op : Comparison} {v w u : Value} :
    op.swap.apply w v = .ok u ↔ op.apply v w = .ok u := by
  refine ⟨fun h => ?_, apply_swap⟩
  have hback := apply_swap h
  rwa [swap_swap] at hback

end Comparison

namespace Expr

variable {input : Input} {op : Comparison} {l r : Expr}

theorem eval_cmp_of_ok {v w : Value} (hl : (l.eval input).result = .ok v)
    (hr : (r.eval input).result = .ok w) :
    (cmp op l r).eval input =
      ⟨op.apply v w, (l.eval input).lookups ++ (r.eval input).lookups⟩ := by
  change (l.eval input >>= fun v => r.eval input >>= fun w => .ofResult (op.apply v w)) = _
  rw [Outcome.bind_of_ok hl, Outcome.bind_of_ok hr, Outcome.lookups_ofResult, List.append_nil]
  rfl

theorem eval_cmp_eq_ok_iff {u : Value} :
    ((cmp op l r).eval input).result = .ok u ↔ ∃ v w,
      (l.eval input).result = .ok v ∧ (r.eval input).result = .ok w ∧ op.apply v w = .ok u := by
  constructor
  · intro h
    obtain ⟨v, hl, h⟩ := Outcome.result_bind_ok.mp h
    obtain ⟨w, hr, h⟩ := Outcome.result_bind_ok.mp h
    exact ⟨v, w, hl, hr, h⟩
  · rintro ⟨v, w, hl, hr, h⟩
    rw [eval_cmp_of_ok hl hr, h]

theorem eval_cmp_swap_eq_ok_iff {u : Value} :
    ((cmp op.swap r l).eval input).result = .ok u ↔
      ((cmp op l r).eval input).result = .ok u := by
  simp only [eval_cmp_eq_ok_iff, Comparison.apply_swap_eq_ok_iff]
  constructor
  · rintro ⟨w, v, hr, hl, h⟩
    exact ⟨v, w, hl, hr, h⟩
  · rintro ⟨v, w, hl, hr, h⟩
    exact ⟨w, v, hr, hl, h⟩

/--
The operands of a comparison may change places if the comparison is swapped with them. Either both
comparisons have the same value, and ask the same of the input in the order of their operands, or
both fail.
-/
theorem eval_cmp_swap (input : Input) (op : Comparison) (l r : Expr) :
    (∃ u, (cmp op l r).eval input =
        ⟨.ok u, (l.eval input).lookups ++ (r.eval input).lookups⟩ ∧
      (cmp op.swap r l).eval input =
        ⟨.ok u, (r.eval input).lookups ++ (l.eval input).lookups⟩) ∨
    ∃ e f, ((cmp op l r).eval input).result = .error e ∧
      ((cmp op.swap r l).eval input).result = .error f := by
  cases h : ((cmp op l r).eval input).result with
  | ok u =>
      left
      obtain ⟨v, w, hl, hr, hu⟩ := eval_cmp_eq_ok_iff.mp h
      refine ⟨u, ?_, ?_⟩
      · rw [eval_cmp_of_ok hl hr, hu]
      · rw [eval_cmp_of_ok hr hl, Comparison.apply_swap hu]
  | error e =>
      right
      cases hswap : ((cmp op.swap r l).eval input).result with
      | ok u =>
          rw [eval_cmp_swap_eq_ok_iff.mp hswap] at h
          cases h
      | error f => exact ⟨e, f, rfl, rfl⟩

end Expr

end QueryExpr
