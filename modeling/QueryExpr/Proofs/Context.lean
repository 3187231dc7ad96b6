import QueryExpr.Error

/-!
# Errors in context

Context goes on the outside of an error, and all that the error says stays at the end of what is
shown. A context without causes of its own is shown as it is, and if it is in use nowhere else it
also says of what kind the error has become. Otherwise the context only lends its words to a note,
which is of no kind.
-/

namespace QueryExpr.Error

section Context

variable (e : Error) {c : Error} {inUse : Bool}

theorem context_of_own (huse : inUse = false) (hcauses : c.causes = []) :
    e.context c inUse = ⟨c.fault, e.chain⟩ := by
  rw [context, huse, hcauses]
  rfl

theorem context_of_lent (h : inUse = true ∨ c.causes ≠ []) :
    e.context c inUse = ⟨.note c.fault.message, e.chain⟩ := by
  have hlent : (inUse || !c.causes.isEmpty) = true := by
    rw [Bool.or_eq_true, Bool.not_eq_true', List.isEmpty_eq_false_iff]
    exact h
  rw [context, if_pos hlent]

theorem chain_context (c : Error) (inUse : Bool) :
    ∃ fault : Fault, fault.message = c.fault.message ∧
      (e.context c inUse).chain = fault :: e.chain := by
  by_cases h : inUse = true ∨ c.causes ≠ []
  · rw [context_of_lent e h]
    exact ⟨.note c.fault.message, rfl, rfl⟩
  · rw [not_or, Bool.not_eq_true, ne_eq, Classical.not_not] at h
    rw [context_of_own e h.1 h.2]
    exact ⟨c.fault, rfl, rfl⟩

theorem message_context (c : Error) (inUse : Bool) :
    (e.context c inUse).message = c.fault.message ++ ": " ++ e.message := by
  obtain ⟨fault, hfault, hchain⟩ := chain_context e c inUse
  have hrest : e.chain.map Fault.message ≠ [] := List.cons_ne_nil _ _
  rw [message, hchain, List.map_cons, hfault, String.intercalate_cons_of_ne_nil hrest]
  rfl

theorem message_of_causes_nil (h : c.causes = []) : c.message = c.fault.message := by
  rw [message, chain, h]
  exact String.intercalate_singleton

theorem message_context_of_causes_nil (h : c.causes = []) (inUse : Bool) :
    (e.context c inUse).message = c.message ++ ": " ++ e.message := by
  rw [message_context, message_of_causes_nil h]

/-- Of contexts around contexts the outermost is shown first and the error last. -/
theorem message_foldr_context {contexts : List (Error × Bool)}
    (h : ∀ c ∈ contexts, c.1.causes = []) :
    (contexts.foldr (fun c e => e.context c.1 c.2) e).message =
      ": ".intercalate (contexts.map (fun c => c.1.message) ++ [e.message]) := by
  induction contexts with
  | nil => exact String.intercalate_singleton.symm
  | cons c contexts ih =>
      obtain ⟨hc, hrest⟩ := List.forall_mem_cons.mp h
      have hinner : contexts.map (fun c => c.1.message) ++ [e.message] ≠ [] := by simp
      rw [List.foldr_cons, message_context_of_causes_nil _ hc, ih hrest, List.map_cons,
        List.cons_append, String.intercalate_cons_of_ne_nil hinner]

end Context

end QueryExpr.Error
