import QueryExpr.Proofs.Conversion
import QueryExpr.Proofs.Unification

/-!
# Typing rules

A declarative companion of type inference. An expression has a type if its value is null or of this
type, so an expression that can only be null has all of them. Inference finds the type of such an
expression, or the expression is one that can only be null.
-/

namespace QueryExpr.Expr

variable (arguments : List Ty)

mutual

/-- The expression is null or of the type. -/
inductive HasType : Expr → Ty → Prop
  | val {v : Value} {t : Ty} (h : v = .null ∨ v.ty = t) : HasType (val v) t
  | arg {position : Nat} {t : Ty}
      (h : Ty.ofArgument arguments position = t ∨ Ty.ofArgument arguments position = .null) :
      HasType (arg position) t
  | col {name : String} {ty t : Ty} (h : ty = t ∨ ty = .null) : HasType (col name ty) t
  | and {xs : List Expr} (hxs : ∀ x ∈ xs, HasType x .bool) : HasType (and xs) .bool
  | or {xs : List Expr} (hxs : ∀ x ∈ xs, HasType x .bool) : HasType (or xs) .bool
  | cmp {op : Comparison} {l r : Expr} (hl : Typable l) (hr : Typable r) :
      HasType (cmp op l r) .bool
  | case {whens : List (When Expr)} {otherwise : Option Expr} {ty : Option Ty} {t : Ty}
      (ht : t.isIndeterminate = false) (hty : ty = none ∨ ty = some t)
      (hconditions : ∀ w ∈ whens, Typable w.condition)
      (hresults : ∀ x ∈ results whens otherwise, HasType x t) :
      HasType (case whens otherwise ty) t
  /-- Results that can only be null are taken for texts. -/
  | caseNull {whens : List (When Expr)} {otherwise : Option Expr} {t : Ty}
      (ht : t.isIndeterminate = false) (hconditions : ∀ w ∈ whens, Typable w.condition)
      (hresults : ∀ x ∈ results whens otherwise, ∀ s : Ty, s.isIndeterminate = false →
        HasType x s) :
      HasType (case whens otherwise (some .string)) t
  | cast {x : Expr} {t : Ty} (ht : t.isIndeterminate = false) (hx : Typable x) :
      HasType (cast x t) t
  | isNull {negated : Bool} {x : Expr} (hx : Typable x) : HasType (isNull negated x) .bool
  | not {x : Expr} (hx : HasType x .bool) : HasType (not x) .bool

/-- The expression has some type. -/
inductive Typable : Expr → Prop
  | of {x : Expr} {t : Ty} (h : HasType x t) : Typable x

end

/-- The expression has every type that says anything, so it can only be null. -/
def Polymorphic (e : Expr) : Prop :=
  ∀ t : Ty, t.isIndeterminate = false → HasType arguments e t

variable {arguments}

theorem HasType.of_null {e : Expr} (h : HasType arguments e .null) (t : Ty) :
    HasType arguments e t := by
  generalize hn : Ty.null = n at h
  cases h with
  | val h =>
      subst hn
      exact .val (Or.inl (h.elim id Value.ty_eq_null_iff.mp))
  | arg h => exact .arg (Or.inr (by rw [hn]; exact h.elim id fun h => h.trans hn))
  | col h => exact .col (Or.inr (by rw [hn]; exact h.elim id fun h => h.trans hn))
  | case ht | caseNull ht | cast ht =>
      subst hn
      simp [Ty.isIndeterminate] at ht
  | _ => cases hn

theorem HasType.child {x e : Expr} {t : Ty} (h : HasType arguments e t) (hx : x ∈ e.children) :
    Typable arguments x := by
  cases h with
  | val | arg | col => simp [children] at hx
  | and hxs | or hxs => exact ⟨hxs x hx⟩
  | cmp hl hr =>
      simp only [children, List.mem_cons, List.not_mem_nil, or_false] at hx
      rcases hx with rfl | rfl
      · exact hl
      · exact hr
  | case _ _ hconditions hresults =>
      rcases mem_children_case.mp hx with ⟨w, hw, rfl⟩ | hx
      · exact hconditions w hw
      · exact ⟨hresults x hx⟩
  | caseNull ht hconditions hresults =>
      rcases mem_children_case.mp hx with ⟨w, hw, rfl⟩ | hx
      · exact hconditions w hw
      · exact ⟨hresults x hx _ ht⟩
  | cast _ hx' | isNull hx' => exact List.mem_singleton.mp hx ▸ hx'
  | not hx' => exact ⟨List.mem_singleton.mp hx ▸ hx'⟩

theorem HasType.mapChildren {e : Expr} {t : Ty} {f : Expr → Expr} (h : HasType arguments e t)
    (hf : ∀ x ∈ e.children, ∀ s, HasType arguments x s → HasType arguments (f x) s) :
    HasType arguments (e.mapChildren f) t := by
  have hcond : ∀ {whens : List (When Expr)} {otherwise : Option Expr} {ty : Option Ty},
      (∀ x ∈ (Expr.case whens otherwise ty).children, Typable arguments x →
        Typable arguments (f x)) → (∀ w ∈ whens, Typable arguments w.condition) →
        ∀ w ∈ whens.map (When.map f), Typable arguments w.condition := by
    intro whens otherwise ty hf hc w hw
    obtain ⟨v, hv, rfl⟩ := List.mem_map.mp hw
    exact hf v.condition (condition_mem_children hv) (hc v hv)
  have hany : ∀ x ∈ e.children, Typable arguments x → Typable arguments (f x) := by
    rintro x hx ⟨hs⟩
    exact ⟨hf x hx _ hs⟩
  cases h with
  | val h => exact .val h
  | arg h => exact .arg h
  | col h => exact .col h
  | and hxs =>
      refine .and fun x hx => ?_
      obtain ⟨y, hy, rfl⟩ := List.mem_map.mp hx
      exact hf y hy _ (hxs y hy)
  | or hxs =>
      refine .or fun x hx => ?_
      obtain ⟨y, hy, rfl⟩ := List.mem_map.mp hx
      exact hf y hy _ (hxs y hy)
  | cmp hl hr => exact .cmp (hany _ (by simp [children]) hl) (hany _ (by simp [children]) hr)
  | case ht hty hconditions hresults =>
      refine .case ht hty (hcond hany hconditions) fun x hx => ?_
      rw [results_map] at hx
      obtain ⟨y, hy, rfl⟩ := List.mem_map.mp hx
      exact hf y (mem_children_of_mem_results hy) _ (hresults y hy)
  | caseNull ht hconditions hresults =>
      refine .caseNull ht (hcond hany hconditions) fun x hx s hs => ?_
      rw [results_map] at hx
      obtain ⟨y, hy, rfl⟩ := List.mem_map.mp hx
      exact hf y (mem_children_of_mem_results hy) _ (hresults y hy s hs)
  | cast ht hx => exact .cast ht (hany _ (by simp [children]) hx)
  | isNull hx => exact .isNull (hany _ (by simp [children]) hx)
  | not hx => exact .not (hf _ (by simp [children]) _ hx)

/-- Inference finds the type, or the expression can only be null and passes for a null or a text. -/
def Inferred (arguments : List Ty) (e : Expr) (t : Ty) : Prop :=
  e.infer arguments = t ∨ Polymorphic arguments e ∧
    (e.infer arguments = .null ∨ e.infer arguments = .string)

/-- What branches share is the type they have, or they can all only be null. -/
theorem ofBranches_of_inferred {whens : List (When Expr)} {otherwise : Option Expr} {t : Ty}
    (ht : t.isIndeterminate = false)
    (h : ∀ x ∈ results whens otherwise, Inferred arguments x t) :
    Ty.ofBranches arguments whens otherwise = t ∨
      Ty.ofBranches arguments whens otherwise = .string ∧
        ∀ x ∈ results whens otherwise, Polymorphic arguments x := by
  have hts : ∀ s ∈ (results whens otherwise).map (infer arguments),
      s = t ∨ s = .null ∨ s = .string := by
    intro s hs
    obtain ⟨x, hx, rfl⟩ := List.mem_map.mp hs
    exact (h x hx).imp id And.right
  rw [Ty.ofBranches_eq]
  rcases Ty.orString_unifyAll ht hts with ⟨heq, -⟩ | ⟨heq, hnot⟩
  · exact Or.inl heq
  · refine Or.inr ⟨heq, fun x hx => ?_⟩
    rcases h x hx with hinfer | hpoly
    · exact absurd (List.mem_map.mpr ⟨x, hx, hinfer⟩) hnot
    · exact hpoly.1

theorem HasType.inferred {e : Expr} {t : Ty} (h : HasType arguments e t) :
    Inferred arguments e t := by
  induction e using induct generalizing t with
  | node e ih =>
      cases h with
      | val h =>
          rcases h with rfl | h
          · exact Or.inr ⟨fun _ _ => .val (Or.inl rfl), Or.inl rfl⟩
          · exact Or.inl h
      | arg h => exact h.imp id fun h => ⟨fun _ _ => .arg (Or.inr h), Or.inl h⟩
      | col h => exact h.imp id fun h => ⟨fun _ _ => .col (Or.inr h), Or.inl h⟩
      | case ht hty hconditions hresults =>
          rcases hty with rfl | rfl
          · rcases ofBranches_of_inferred ht fun x hx =>
                ih x (mem_children_of_mem_results hx) (hresults x hx) with heq | ⟨heq, hpoly⟩
            · exact Or.inl heq
            · refine Or.inr ⟨fun s hs => ?_, Or.inr heq⟩
              exact .case hs (Or.inl rfl) hconditions fun x hx => hpoly x hx s hs
          · exact Or.inl (by rw [infer])
      | caseNull ht hconditions hresults =>
          exact Or.inr ⟨fun s hs => .caseNull hs hconditions hresults, Or.inr (by rw [infer])⟩
      | _ => exact Or.inl (by rw [infer])

theorem HasType.retype {whens : List (When Expr)} {otherwise : Option Expr} {ty : Option Ty}
    {t : Ty} (h : HasType arguments (Expr.case whens otherwise ty) t) :
    HasType arguments
      (Expr.case whens otherwise (some (Ty.ofBranches arguments whens otherwise))) t := by
  cases h with
  | case ht hty hconditions hresults =>
      rcases ofBranches_of_inferred ht fun x hx => (hresults x hx).inferred with heq | ⟨heq, hpoly⟩
      · exact .case ht (Or.inr (by rw [heq])) hconditions hresults
      · rw [heq]
        exact .caseNull ht hconditions hpoly
  | caseNull ht hconditions hresults =>
      rcases ofBranches_of_inferred ht fun x hx => (hresults x hx _ ht).inferred with heq | ⟨heq, -⟩
      · exact .case ht (Or.inr (by rw [heq])) hconditions fun x hx => hresults x hx _ ht
      · rw [heq]
        exact .caseNull ht hconditions hresults

end QueryExpr.Expr
