import QueryExpr.Proofs.HasType
import QueryExpr.Proofs.Subterms

/-!
# Well-typed expressions

Connectives with boolean operands, casts to types that say something, and branches of one type. Such
an expression has the type that is inferred for it.
-/

namespace QueryExpr

theorem Ty.mem_all (t : Ty) : t ∈ all := by cases t <;> decide

namespace Expr

variable (arguments : List Ty)

/-- The parts of the node have the types the node asks for. A null has every type. -/
def NodeTyped : Expr → Prop
  | and xs | or xs =>
      xs ≠ [] ∧ ∀ x ∈ xs, x.infer arguments = .bool ∨ x.infer arguments = .null
  | not x => x.infer arguments = .bool ∨ x.infer arguments = .null
  | cast _ ty => ty.isIndeterminate = false
  | case whens otherwise ty =>
      ∃ t : Ty, t.isIndeterminate = false ∧ (ty = none ∨ ty = some t) ∧
        ∀ x ∈ results whens otherwise, x.infer arguments = t ∨ x.infer arguments = .null
  | _ => True

instance : DecidablePred (NodeTyped arguments)
  | and xs | or xs => inferInstanceAs (Decidable
      (xs ≠ [] ∧ ∀ x ∈ xs, x.infer arguments = .bool ∨ x.infer arguments = .null))
  | not x =>
      inferInstanceAs (Decidable (x.infer arguments = .bool ∨ x.infer arguments = .null))
  | cast _ ty => inferInstanceAs (Decidable (ty.isIndeterminate = false))
  | case whens otherwise ty =>
      decidable_of_iff (∃ t ∈ Ty.all, t.isIndeterminate = false ∧ (ty = none ∨ ty = some t) ∧
          ∀ x ∈ results whens otherwise, x.infer arguments = t ∨ x.infer arguments = .null)
        ⟨fun ⟨t, _, h⟩ => ⟨t, h⟩, fun ⟨t, h⟩ => ⟨t, t.mem_all, h⟩⟩
  | val _ | arg _ | col _ _ | cmp _ _ _ | isNull _ _ => inferInstanceAs (Decidable True)

def WellTyped (e : Expr) : Prop := Everywhere (NodeTyped arguments) e

instance (e : Expr) : Decidable (WellTyped arguments e) :=
  inferInstanceAs (Decidable (Everywhere _ e))

variable {arguments}

private theorem HasType.of_infer {x : Expr} {t : Ty}
    (h : HasType arguments x (x.infer arguments))
    (ht : x.infer arguments = t ∨ x.infer arguments = .null) : HasType arguments x t := by
  rcases ht with ht | ht <;> rw [ht] at h
  · exact h
  · exact h.of_null t

/-- A well-typed expression has its inferred type. -/
theorem WellTyped.hasType {e : Expr} (h : WellTyped arguments e) :
    HasType arguments e (e.infer arguments) := by
  induction e using induct with
  | node e ih =>
      obtain ⟨hnode, hparts⟩ := everywhere_iff.mp h
      have hchild : ∀ x ∈ e.children, HasType arguments x (x.infer arguments) :=
        fun x hx => ih x hx (hparts x hx)
      cases e with
      | val v => exact .val (Or.inr rfl)
      | arg position => exact .arg (Or.inl rfl)
      | col name ty => exact .col (Or.inl rfl)
      | and xs => exact .and fun x hx => (hchild x hx).of_infer (hnode.2 x hx)
      | or xs => exact .or fun x hx => (hchild x hx).of_infer (hnode.2 x hx)
      | cmp op l r =>
          exact .cmp ⟨hchild l (by simp [children])⟩ ⟨hchild r (by simp [children])⟩
      | case whens otherwise ty =>
          obtain ⟨t, ht, hty, hresults⟩ := hnode
          have htyped : ∀ x ∈ results whens otherwise, HasType arguments x t := fun x hx =>
            (hchild x (mem_children_of_mem_results hx)).of_infer (hresults x hx)
          have hconditions : ∀ w ∈ whens, Typable arguments w.condition := fun w hw =>
            ⟨hchild w.condition (condition_mem_children hw)⟩
          rcases hty with rfl | rfl
          · change HasType arguments _ (Ty.ofBranches arguments whens otherwise)
            rcases ofBranches_of_inferred ht fun x hx => (htyped x hx).inferred with
              heq | ⟨heq, hpoly⟩
            · rw [heq]
              exact .case ht (Or.inl rfl) hconditions htyped
            · rw [heq]
              exact .case rfl (Or.inl rfl) hconditions fun x hx => hpoly x hx _ rfl
          · rw [infer]
            exact .case ht (Or.inr rfl) hconditions htyped
      | cast x ty => exact .cast hnode ⟨hchild x (by simp [children])⟩
      | isNull negated x => exact .isNull ⟨hchild x (by simp [children])⟩
      | not x => exact .not ((hchild x (by simp [children])).of_infer hnode)

end Expr

end QueryExpr
