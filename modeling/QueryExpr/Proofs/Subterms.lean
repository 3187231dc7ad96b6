import QueryExpr.Expr.Recursion

/-!
# Subterms

Every node of an expression, the expression itself included, in the order in which a reader meets
them. A property of all nodes is passed from the parts to the node, and survives a rebuilding whose
rule keeps it. The parts of a CASE are its conditions and its results.
-/

namespace QueryExpr.Expr

def subterms : Expr → List Expr := fold fun e parts => e :: parts.flatten

theorem subterms_eq (e : Expr) : e.subterms = e :: e.children.flatMap subterms := by
  rw [subterms, fold_eq]
  rfl

theorem mem_subterms {x e : Expr} :
    x ∈ e.subterms ↔ x = e ∨ ∃ y ∈ e.children, x ∈ y.subterms := by
  rw [subterms_eq, List.mem_cons, List.mem_flatMap]

theorem self_mem_subterms (e : Expr) : e ∈ e.subterms := mem_subterms.mpr (Or.inl rfl)

theorem mem_subterms_of_child {x y e : Expr} (hy : y ∈ e.children) (hx : x ∈ y.subterms) :
    x ∈ e.subterms := mem_subterms.mpr (Or.inr ⟨y, hy, hx⟩)

theorem child_mem_subterms {y e : Expr} (hy : y ∈ e.children) : y ∈ e.subterms :=
  mem_subterms_of_child hy y.self_mem_subterms

theorem subterms_trans {x y e : Expr} (hx : x ∈ y.subterms) (hy : y ∈ e.subterms) :
    x ∈ e.subterms := by
  induction e using induct with
  | node e ih =>
      rcases mem_subterms.mp hy with rfl | ⟨z, hz, hyz⟩
      · exact hx
      · exact mem_subterms_of_child hz (ih z hz hyz)

/-- Every node of the expression has the property. -/
def Everywhere (P : Expr → Prop) (e : Expr) : Prop := ∀ x ∈ e.subterms, P x

instance (P : Expr → Prop) [DecidablePred P] (e : Expr) : Decidable (Everywhere P e) :=
  inferInstanceAs (Decidable (∀ x ∈ e.subterms, P x))

theorem everywhere_iff {P : Expr → Prop} {e : Expr} :
    Everywhere P e ↔ P e ∧ ∀ x ∈ e.children, Everywhere P x := by
  constructor
  · intro h
    exact ⟨h e e.self_mem_subterms, fun y hy x hx => h x (mem_subterms_of_child hy hx)⟩
  · rintro ⟨he, hparts⟩ x hx
    rcases mem_subterms.mp hx with rfl | ⟨y, hy, hxy⟩
    · exact he
    · exact hparts y hy x hxy

theorem Everywhere.of_subterm {P : Expr → Prop} {x e : Expr} (h : Everywhere P e)
    (hx : x ∈ e.subterms) : Everywhere P x := fun y hy => h y (subterms_trans hy hx)

theorem children_mapChildren (f : Expr → Expr) (e : Expr) :
    (e.mapChildren f).children = e.children.map f := by
  cases e with
  | case whens otherwise ty =>
      simp only [mapChildren, children, whenParts, List.map_append, Option.toList_map,
        List.map_flatMap, List.flatMap_map]
      rfl
  | _ => rfl

/-- The results of a CASE, that of ELSE last. -/
def results (whens : List (When Expr)) (otherwise : Option Expr) : List Expr :=
  whens.map When.result ++ otherwise.toList

theorem mem_results {whens : List (When Expr)} {otherwise : Option Expr} {x : Expr} :
    x ∈ results whens otherwise ↔ (∃ w ∈ whens, w.result = x) ∨ otherwise = some x := by
  rw [results, List.mem_append, List.mem_map, Option.mem_toList]

theorem result_mem_results {whens : List (When Expr)} {otherwise : Option Expr} {w : When Expr}
    (h : w ∈ whens) : w.result ∈ results whens otherwise := mem_results.mpr (Or.inl ⟨w, h, rfl⟩)

theorem otherwise_mem_results {whens : List (When Expr)} {otherwise : Option Expr} {x : Expr}
    (h : x ∈ otherwise) : x ∈ results whens otherwise := mem_results.mpr (Or.inr h)

theorem results_map (f : Expr → Expr) (whens : List (When Expr)) (otherwise : Option Expr) :
    results (whens.map (When.map f)) (otherwise.map f) = (results whens otherwise).map f := by
  simp only [results, List.map_append, List.map_map, Option.toList_map]
  rfl

theorem mem_children_case {whens : List (When Expr)} {otherwise : Option Expr}
    {ty : Option Ty} {x : Expr} :
    x ∈ (case whens otherwise ty).children ↔
      (∃ w ∈ whens, w.condition = x) ∨ x ∈ results whens otherwise := by
  simp only [children, whenParts, mem_results, List.mem_append, List.mem_flatMap, List.mem_cons,
    List.not_mem_nil, or_false, Option.mem_toList]
  constructor
  · rintro (⟨w, hw, rfl | rfl⟩ | h)
    · exact Or.inl ⟨w, hw, rfl⟩
    · exact Or.inr (Or.inl ⟨w, hw, rfl⟩)
    · exact Or.inr (Or.inr h)
  · rintro (⟨w, hw, rfl⟩ | ⟨w, hw, rfl⟩ | h)
    · exact Or.inl ⟨w, hw, Or.inl rfl⟩
    · exact Or.inl ⟨w, hw, Or.inr rfl⟩
    · exact Or.inr h

theorem mem_children_of_mem_results {whens : List (When Expr)} {otherwise : Option Expr}
    {ty : Option Ty} {x : Expr} (h : x ∈ results whens otherwise) :
    x ∈ (case whens otherwise ty).children := mem_children_case.mpr (Or.inr h)

theorem condition_mem_children {whens : List (When Expr)} {otherwise : Option Expr}
    {ty : Option Ty} {w : When Expr} (h : w ∈ whens) :
    w.condition ∈ (case whens otherwise ty).children :=
  mem_children_case.mpr (Or.inl ⟨w, h, rfl⟩)

theorem result_mem_children {whens : List (When Expr)} {otherwise : Option Expr}
    {ty : Option Ty} {w : When Expr} (h : w ∈ whens) :
    w.result ∈ (case whens otherwise ty).children :=
  mem_children_of_mem_results (result_mem_results h)

theorem otherwise_mem_children {whens : List (When Expr)} {otherwise : Option Expr}
    {ty : Option Ty} {x : Expr} (h : x ∈ otherwise) :
    x ∈ (case whens otherwise ty).children :=
  mem_children_of_mem_results (otherwise_mem_results h)

theorem mapChildren_congr {f g : Expr → Expr} {e : Expr} (h : ∀ x ∈ e.children, f x = g x) :
    e.mapChildren f = e.mapChildren g := by
  cases e with
  | val | arg | col => rfl
  | and xs => exact congrArg and (List.map_congr_left h)
  | or xs => exact congrArg or (List.map_congr_left h)
  | cmp op l r => simp only [mapChildren, h l (by simp [children]), h r (by simp [children])]
  | case whens otherwise ty =>
      have hwhens : whens.map (When.map f) = whens.map (When.map g) := by
        apply List.map_congr_left
        intro w hw
        simp only [When.map, h _ (condition_mem_children hw), h _ (result_mem_children hw)]
      have helse : otherwise.map f = otherwise.map g := by
        cases otherwise with
        | none => rfl
        | some x => simp only [Option.map_some, h x (otherwise_mem_children rfl)]
      simp only [mapChildren, hwhens, helse]
  | cast x ty | isNull negated x | not x =>
      simp only [mapChildren, h x (List.mem_singleton_self x)]

@[simp] theorem isCase_mapChildren (f : Expr → Expr) (e : Expr) :
    (e.mapChildren f).isCase = e.isCase := by cases e <;> rfl

theorem case_or_not (e : Expr) :
    (∃ whens otherwise ty, e = case whens otherwise ty) ∨ e.isCase = false := by
  cases e with
  | case whens otherwise ty => exact Or.inl ⟨whens, otherwise, ty, rfl⟩
  | _ => exact Or.inr rfl

theorem mapChildren_id (e : Expr) : e.mapChildren id = e := by
  cases e with
  | case whens otherwise ty =>
      have : When.map (id : Expr → Expr) = id := by funext w; rfl
      simp [mapChildren, this]
  | _ => simp [mapChildren]

theorem mapChildren_mapChildren (f g : Expr → Expr) (e : Expr) :
    (e.mapChildren f).mapChildren g = e.mapChildren fun x => g (f x) := by
  cases e with
  | case whens otherwise ty =>
      simp only [mapChildren, List.map_map, Option.map_map]
      rfl
  | and xs | or xs =>
      simp only [mapChildren, List.map_map]
      rfl
  | _ => rfl

/-- An expression is kept by a rule that keeps every node of it. -/
theorem rebuild_of_everywhere {f : Expr → Expr} {e : Expr} (h : Everywhere (fun x => f x = x) e) :
    rebuild f e = e := by
  induction e using induct with
  | node e ih =>
      obtain ⟨hnode, hparts⟩ := everywhere_iff.mp h
      have hchildren : ∀ x ∈ e.children, rebuild f x = id x := fun x hx => ih x hx (hparts x hx)
      rw [rebuild_eq, mapChildren_congr hchildren, mapChildren_id, hnode]

theorem children_rebuild {f : Expr → Expr} (hf : ∀ x, (f x).children = x.children) (e : Expr) :
    (rebuild f e).children = e.children.map (rebuild f) := by
  rw [rebuild_eq, hf, children_mapChildren]

theorem subterms_rebuild {f : Expr → Expr} (hf : ∀ x, (f x).children = x.children) (e : Expr) :
    (rebuild f e).subterms = e.subterms.map (rebuild f) := by
  induction e using induct with
  | node e ih =>
      rw [subterms_eq, subterms_eq e, children_rebuild hf, List.flatMap_map, List.map_cons,
        List.map_flatMap]
      congr 1
      rw [List.flatMap_def, List.flatMap_def, List.map_congr_left ih]

/-- What the rule of a rebuilding keeps holds of every node of the result. -/
theorem everywhere_rebuild {P : Expr → Prop} {f : Expr → Expr}
    (rule : ∀ e, (∀ x ∈ e.children, Everywhere P x) → Everywhere P (f e)) (e : Expr) :
    Everywhere P (rebuild f e) := by
  induction e using induct with
  | node e ih =>
      rw [rebuild_eq]
      apply rule
      intro x hx
      rw [children_mapChildren] at hx
      obtain ⟨y, hy, rfl⟩ := List.mem_map.mp hx
      exact ih y hy

theorem everywhere_rebuild_of {P : Expr → Prop} {f : Expr → Expr}
    (hparts : ∀ (e : Expr) (g : Expr → Expr), P e → P (e.mapChildren g))
    (rule : ∀ e, P e → (∀ x ∈ e.children, Everywhere P x) → Everywhere P (f e)) {e : Expr}
    (h : Everywhere P e) : Everywhere P (rebuild f e) := by
  induction e using induct with
  | node e ih =>
      obtain ⟨he, hchildren⟩ := everywhere_iff.mp h
      rw [rebuild_eq]
      apply rule _ (hparts e _ he)
      intro x hx
      rw [children_mapChildren] at hx
      obtain ⟨y, hy, rfl⟩ := List.mem_map.mp hx
      exact ih y hy (hchildren y hy)

end QueryExpr.Expr
