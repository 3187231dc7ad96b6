import QueryExpr.Eval

/-!
# Laws of outcomes

Outcomes form a monad. One outcome refines another if it succeeds wherever the other does, with the
same value, and its look-ups are some of the other's, in their order.
-/

namespace QueryExpr.Outcome

variable {α β : Type}

@[ext] protected theorem ext {o p : Outcome α} (hr : o.result = p.result)
    (hl : o.lookups = p.lookups) : o = p := by
  cases o
  cases p
  simp only at hr hl
  rw [hr, hl]

@[simp] theorem result_ofResult (r : Except Error α) : (ofResult r).result = r := rfl

@[simp] theorem lookups_ofResult (r : Except Error α) : (ofResult r).lookups = [] := rfl

@[simp] theorem ofResult_ok (a : α) : ofResult (.ok a) = pure a := rfl

theorem bind_of_ok {o : Outcome α} {a : α} (h : o.result = .ok a) (f : α → Outcome β) :
    o >>= f = ⟨(f a).result, o.lookups ++ (f a).lookups⟩ := by
  apply Outcome.ext
  · rw [result_bind, h]
    rfl
  · rw [lookups_bind, h]

theorem bind_of_error {o : Outcome α} {e : Error} (h : o.result = .error e)
    (f : α → Outcome β) : o >>= f = ⟨.error e, o.lookups⟩ := by
  apply Outcome.ext
  · rw [result_bind, h]
    rfl
  · rw [lookups_bind, h, List.append_nil]

theorem result_bind_ok {o : Outcome α} {f : α → Outcome β} {b : β} :
    (o >>= f).result = .ok b ↔ ∃ a, o.result = .ok a ∧ (f a).result = .ok b := by
  cases h : o.result with
  | error e => simp [bind_of_error h]
  | ok a => simp [bind_of_ok h]

theorem result_bind_error {o : Outcome α} {f : α → Outcome β} {err : Error} :
    (o >>= f).result = .error err ↔
      o.result = .error err ∨ ∃ a, o.result = .ok a ∧ (f a).result = .error err := by
  cases h : o.result with
  | error e => simp [bind_of_error h]
  | ok a => simp [bind_of_ok h]

private theorem bind_pure_eq (o : Outcome α) : o >>= pure = o := by
  cases h : o.result with
  | error e => rw [bind_of_error h, ← h]
  | ok a =>
      rw [bind_of_ok h]
      apply Outcome.ext
      · rw [h]
        rfl
      · exact List.append_nil _

private theorem pure_bind_eq (a : α) (f : α → Outcome β) : pure a >>= f = f a := by
  rw [bind_of_ok (result_pure a)]
  rfl

private theorem bind_assoc_eq {γ : Type} (o : Outcome α) (f : α → Outcome β)
    (g : β → Outcome γ) : o >>= f >>= g = o >>= fun a => f a >>= g := by
  cases h : o.result with
  | error e => rw [bind_of_error h, bind_of_error rfl, bind_of_error h]
  | ok a =>
      rw [bind_of_ok h, bind_of_ok h]
      cases hf : (f a).result with
      | error e => rw [bind_of_error rfl, bind_of_error hf]
      | ok b => rw [bind_of_ok rfl, bind_of_ok hf, List.append_assoc]

instance : LawfulMonad Outcome :=
  LawfulMonad.mk' Outcome bind_pure_eq pure_bind_eq bind_assoc_eq

theorem bind_congr_ok {o : Outcome α} {f g : α → Outcome β}
    (h : ∀ a, o.result = .ok a → f a = g a) : o >>= f = o >>= g := by
  cases ho : o.result with
  | error e => rw [bind_of_error ho, bind_of_error ho]
  | ok a => rw [bind_of_ok ho, bind_of_ok ho, h a ho]

theorem lookups_bind_sublist {o : Outcome α} {f : α → Outcome β} {l l' : List Lookup}
    (ho : o.lookups.Sublist l) (hf : ∀ a, (f a).lookups.Sublist l') :
    (o >>= f).lookups.Sublist (l ++ l') := by
  cases h : o.result with
  | error e =>
      rw [bind_of_error h]
      exact ho.trans (List.sublist_append_left l l')
  | ok a =>
      rw [bind_of_ok h]
      exact ho.append (hf a)

/-- Where `o` has a value, `p` has the same one and asks for no more. -/
def RefinedBy (o p : Outcome α) : Prop :=
  ∀ a, o.result = .ok a → p.result = .ok a ∧ p.lookups.Sublist o.lookups

theorem RefinedBy.refl (o : Outcome α) : o.RefinedBy o := fun _ h => ⟨h, List.Sublist.refl _⟩

theorem RefinedBy.of_eq {o p : Outcome α} (h : o = p) : o.RefinedBy p := h ▸ RefinedBy.refl o

theorem RefinedBy.trans {o p q : Outcome α} (hop : o.RefinedBy p) (hpq : p.RefinedBy q) :
    o.RefinedBy q := by
  intro a ha
  obtain ⟨hp, hl⟩ := hop a ha
  obtain ⟨hq, hl'⟩ := hpq a hp
  exact ⟨hq, hl'.trans hl⟩

theorem RefinedBy.bind {o p : Outcome α} {f g : α → Outcome β} (hop : o.RefinedBy p)
    (hfg : ∀ a, o.result = .ok a → (f a).RefinedBy (g a)) : (o >>= f).RefinedBy (p >>= g) := by
  intro b hb
  obtain ⟨a, ha, hfb⟩ := result_bind_ok.mp hb
  obtain ⟨hp, hl⟩ := hop a ha
  obtain ⟨hgb, hl'⟩ := hfg a ha b hfb
  rw [bind_of_ok ha, bind_of_ok hp]
  exact ⟨hgb, hl.append hl'⟩

theorem RefinedBy.ofResult {r r' : Except Error α} (h : ∀ a, r = .ok a → r' = .ok a) :
    (Outcome.ofResult r).RefinedBy (Outcome.ofResult r') :=
  fun a ha => ⟨h a ha, List.Sublist.refl _⟩

/-- Steps that pass a value on unchanged can be left out. -/
theorem RefinedBy.of_bind {o : Outcome α} {f : α → Outcome α}
    (h : ∀ a b, o.result = .ok a → (f a).result = .ok b → a = b) : (o >>= f).RefinedBy o := by
  intro b hb
  obtain ⟨a, ha, hfb⟩ := result_bind_ok.mp hb
  refine ⟨h a b ha hfb ▸ ha, ?_⟩
  rw [bind_of_ok ha]
  exact List.sublist_append_left _ _

theorem RefinedBy.pure {o : Outcome α} {a : α} (h : ∀ b, o.result = .ok b → b = a) :
    o.RefinedBy (Pure.pure a) := by
  intro b hb
  rw [h b hb]
  exact ⟨rfl, List.nil_sublist _⟩

end QueryExpr.Outcome
