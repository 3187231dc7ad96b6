import QueryExpr.Proofs.CasePass
import QueryExpr.Proofs.Lookups

/-!
# What simplification leaves

The local rule of simplification makes a constant, keeps a node from below, or builds a node out of
nodes from below. So every node of a simplified expression is reduced, and all its columns and
arguments are those of the original.
-/

namespace QueryExpr

namespace Simplify

/-- The rule has no more to do at the node itself, whatever its parts are. -/
def Shaped (arguments : List Ty) : Expr → Prop
  | .and xs | .or xs => 2 ≤ xs.length
  | .cast x ty => ty.isIndeterminate = false ∧ x.infer arguments ≠ ty
  | .case whens otherwise ty => ty = some (Ty.ofBranches arguments whens otherwise)
  | _ => True

/-- The node cannot be replaced by its value: it is one, it needs input, or it fails. -/
def Unfoldable (e : Expr) : Prop :=
  e.isValue = true ∨ e.isConst = false ∨ ∃ err, e.evalConst = .error err

/-- A node as simplification leaves it. Only a CASE may still have a value without input. -/
def Reduced (arguments : List Ty) (e : Expr) : Prop :=
  Shaped arguments e ∧ (e.isCase = true ∨ Unfoldable e)

/-- What the local rule can make of a node. -/
inductive Step (arguments : List Ty) (e : Expr) : Expr → Prop
  | constant (v : Value) : Step arguments e (.val v)
  | below {x y : Expr} (hx : x ∈ e.children) (hy : y ∈ x.subterms) : Step arguments e y
  | built {y : Expr} (hparts : ∀ z ∈ y.children, ∃ x ∈ e.children, z ∈ x.subterms)
      (hleaf : y = e ∨ y.lookup? = none) (hy : Reduced arguments y) :
      Step arguments e y

theorem foldConst_cases (e : Expr) :
    (∃ v, foldConst e = .val v ∧ e.isConst = true ∧ e.evalConst = .ok v) ∨
      foldConst e = e ∧ Unfoldable e := by
  unfold foldConst Unfoldable
  cases hconst : e.isConst with
  | false => simp
  | true =>
      cases hval : e.evalConst with
      | ok v => exact Or.inl ⟨v, rfl, rfl, rfl⟩
      | error err => simp

private theorem step_foldConst {arguments : List Ty} {e y : Expr}
    (hparts : ∀ z ∈ y.children, ∃ x ∈ e.children, z ∈ x.subterms) (hleaf : y.lookup? = none)
    (hy : Shaped arguments y) : Step arguments e (foldConst y) := by
  rcases foldConst_cases y with ⟨v, hv, -, -⟩ | ⟨hkeep, hfold⟩
  · rw [hv]
    exact .constant v
  · rw [hkeep]
    exact .built hparts (Or.inr hleaf) ⟨hy, Or.inr hfold⟩

private theorem step_foldConst_same {arguments : List Ty} {e y : Expr}
    (hparts : ∀ z ∈ y.children, z ∈ e.children) (hleaf : y.lookup? = none)
    (hy : Shaped arguments y) : Step arguments e (foldConst y) :=
  step_foldConst (fun z hz => ⟨z, hparts z hz, z.self_mem_subterms⟩) hleaf hy

private theorem step_foldConst_below {arguments : List Ty} {e x y : Expr}
    (hx : x ∈ e.children) (hy : y ∈ x.subterms) : Step arguments e (foldConst y) := by
  rcases foldConst_cases y with ⟨v, hv, -, -⟩ | ⟨hkeep, -⟩
  · rw [hv]
    exact .constant v
  · rw [hkeep]
    exact .below hx hy

private theorem step_connect {arguments : List Ty} {e : Expr} {decisive : Bool}
    {connective : List Expr → Expr} {operands : List Expr}
    (hoperands : ∀ z ∈ operands, ∃ x ∈ e.children, z ∈ x.subterms)
    (hchildren : ∀ xs, (connective xs).children = xs)
    (hleaf : ∀ xs, (connective xs).lookup? = none)
    (hshaped : ∀ xs, 2 ≤ xs.length → Shaped arguments (connective xs)) :
    Step arguments e (foldConst (connect decisive connective operands)) := by
  unfold connect
  split
  · exact .constant _
  · have hkept : ∀ z ∈ operands.filter (fun x => !x.isTruth (!decisive)),
        ∃ x ∈ e.children, z ∈ x.subterms := fun z hz => hoperands z (List.mem_filter.mp hz).1
    split
    · exact .constant _
    · rename_i y hy
      obtain ⟨x, hx, hyx⟩ := hkept y (by simp [hy])
      exact step_foldConst_below hx hyx
    · rename_i hnil hone
      apply step_foldConst
      · rw [hchildren]
        exact hkept
      · exact hleaf _
      · apply hshaped
        generalize operands.filter (fun x => !x.isTruth (!decisive)) = ys at hnil hone
        match ys with
        | [] => exact absurd rfl hnil
        | [y] => exact absurd rfl (hone y)
        | _ :: _ :: _ => simp

/-- Takes a connective apart into its operands and leaves any other expression whole. -/
structure Splits (connective : List Expr → Expr) (parts : Expr → List Expr) : Prop where
  children : ∀ xs, (connective xs).children = xs
  same : ∀ xs, parts (connective xs) = xs
  other : ∀ {x}, (∀ xs, x ≠ connective xs) → parts x = [x]

theorem splits_conjuncts : Splits .and conjuncts where
  children _ := rfl
  same _ := rfl
  other h := by
    unfold conjuncts
    split
    · exact absurd rfl (h _)
    · rfl

theorem splits_disjuncts : Splits .or disjuncts where
  children _ := rfl
  same _ := rfl
  other h := by
    unfold disjuncts
    split
    · exact absurd rfl (h _)
    · rfl

theorem Splits.flatMap_eq_self {connective : List Expr → Expr} {parts : Expr → List Expr}
    (hs : Splits connective parts) {xs : List Expr} (h : ∀ x ∈ xs, ∀ ys, x ≠ connective ys) :
    xs.flatMap parts = xs := by
  have hwhole : ∀ x ∈ xs, parts x = [x] := fun x hx => hs.other (h x hx)
  rw [List.flatMap_def, List.map_congr_left hwhole, ← List.flatMap_def, List.flatMap_singleton']

theorem Splits.mem_subterms {connective : List Expr → Expr} {parts : Expr → List Expr}
    (hs : Splits connective parts) {x z : Expr} (h : z ∈ parts x) : z ∈ x.subterms := by
  by_cases hx : ∃ xs, x = connective xs
  · obtain ⟨xs, rfl⟩ := hx
    rw [hs.same] at h
    exact Expr.child_mem_subterms (by rwa [hs.children])
  · rw [hs.other (not_exists.mp hx), List.mem_singleton] at h
    rw [h]
    exact x.self_mem_subterms

private theorem mem_flatMap_subterms {parts : Expr → List Expr} {xs : List Expr} {z : Expr}
    (hparts : ∀ {x z}, z ∈ parts x → z ∈ x.subterms) (h : z ∈ xs.flatMap parts) :
    ∃ x ∈ xs, z ∈ x.subterms := by
  obtain ⟨x, hx, hz⟩ := List.mem_flatMap.mp h
  exact ⟨x, hx, hparts hz⟩

/-- A CASE becomes null, one of its results, or the same CASE with its type. -/
theorem foldCase_cases (arguments : List Ty) (whens : List (When Expr))
    (otherwise : Option Expr) :
    foldCase arguments whens otherwise = .val .null ∨
      foldCase arguments whens otherwise ∈ Expr.results whens otherwise ∨
      foldCase arguments whens otherwise =
        .case whens otherwise (some (Ty.ofBranches arguments whens otherwise)) := by
  unfold foldCase
  split
  · cases otherwise with
    | none => exact Or.inl rfl
    | some x => exact Or.inr (Or.inl (Expr.otherwise_mem_results rfl))
  · rename_i w ws hdrop
    split
    · have hw : w ∈ whens := by
        apply (List.dropWhile_sublist neverSelected).subset
        rw [hdrop]
        exact List.mem_cons_self
      exact Or.inr (Or.inl (Expr.result_mem_results hw))
    · exact Or.inr (Or.inr rfl)

private theorem step_case (arguments : List Ty) (whens : List (When Expr))
    (otherwise : Option Expr) (ty : Option Ty) :
    Step arguments (.case whens otherwise ty) (foldCase arguments whens otherwise) := by
  rcases foldCase_cases arguments whens otherwise with h | h | h
  · rw [h]
    exact .constant _
  · exact .below (Expr.mem_children_of_mem_results h) (Expr.self_mem_subterms _)
  · rw [h]
    refine .built ?_ (Or.inr rfl) ⟨rfl, Or.inl rfl⟩
    exact fun z hz => ⟨z, hz, z.self_mem_subterms⟩

private theorem step_compareOperands (arguments : List Ty) (op : Comparison) (l r : Expr) :
    Step arguments (.cmp op l r) (foldConst (compareOperands op l r)) := by
  unfold compareOperands
  split
  · exact .constant _
  · split
    · refine step_foldConst_same (fun z hz => ?_) rfl trivial
      simp only [Expr.children, List.mem_cons, List.not_mem_nil, or_false] at hz ⊢
      exact hz.symm
    · exact step_foldConst_same (fun _ hz => hz) rfl trivial

private theorem step_castOperand (arguments : List Ty) (x : Expr) (ty : Ty) :
    Step arguments (.cast x ty) (foldConst (castOperand arguments x ty)) := by
  unfold castOperand
  split
  · exact step_foldConst_below (List.mem_singleton_self x) x.self_mem_subterms
  · rename_i hty
    rw [Bool.or_eq_true, not_or, beq_iff_eq, Bool.not_eq_true] at hty
    exact step_foldConst_same (fun _ hz => hz) rfl hty

private theorem step_testNull (arguments : List Ty) (negated : Bool) (x : Expr) :
    Step arguments (.isNull negated x) (foldConst (testNull arguments negated x)) := by
  unfold testNull
  split
  · rename_i y ty
    split
    · refine step_foldConst (fun z hz => ?_) rfl trivial
      rw [List.mem_singleton.mp hz]
      exact ⟨_, List.mem_singleton_self _, Expr.child_mem_subterms (List.mem_singleton_self y)⟩
    · exact step_foldConst_same (fun _ hz => hz) rfl trivial
  · exact .constant _
  · exact step_foldConst_same (fun _ hz => hz) rfl trivial

private theorem step_negate (arguments : List Ty) (x : Expr) :
    Step arguments (.not x) (foldConst (negate x)) := by
  unfold negate
  split
  · rename_i y
    exact step_foldConst_below (List.mem_singleton_self _)
      (Expr.child_mem_subterms (List.mem_singleton_self y))
  · exact step_foldConst_same (fun _ hz => hz) rfl trivial

/-- All that the local rule can do, for every kind of node. -/
theorem node_step (arguments : List Ty) (e : Expr) : Step arguments e (node arguments e) := by
  cases e with
  | val v => exact .constant v
  | arg position =>
      exact .built nofun (Or.inl rfl) ⟨trivial, Or.inr (Or.inr (Or.inl (Expr.isConst_eq _)))⟩
  | col name ty =>
      exact .built nofun (Or.inl rfl) ⟨trivial, Or.inr (Or.inr (Or.inl (Expr.isConst_eq _)))⟩
  | and xs =>
      exact step_connect (fun _ => mem_flatMap_subterms splits_conjuncts.mem_subterms) (fun _ => rfl)
        (fun _ => rfl) fun _ h => h
  | or xs =>
      exact step_connect (fun _ => mem_flatMap_subterms splits_disjuncts.mem_subterms) (fun _ => rfl)
        (fun _ => rfl) fun _ h => h
  | cmp op l r => exact step_compareOperands arguments op l r
  | case whens otherwise ty => exact step_case arguments whens otherwise ty
  | cast x ty => exact step_castOperand arguments x ty
  | isNull negated x => exact step_testNull arguments negated x
  | not x => exact step_negate arguments x

theorem reduced_node {arguments : List Ty} {e : Expr}
    (h : ∀ x ∈ e.children, Expr.Everywhere (Reduced arguments) x) :
    Reduced arguments (node arguments e) := by
  have hstep := node_step arguments e
  generalize node arguments e = y at hstep
  cases hstep with
  | constant v => exact ⟨trivial, Or.inr (Or.inl rfl)⟩
  | below hx hy => exact h _ hx _ hy
  | built hparts hleaf hy => exact hy

end Simplify

namespace Expr

variable (arguments : List Ty)

/-- What the rule gives the node it makes, if the parts have it everywhere, is everywhere. -/
theorem everywhere_simplify {P : Expr → Prop}
    (rule : ∀ e, (∀ x ∈ e.children, Everywhere P x) → P (Simplify.node arguments e)) (e : Expr) :
    Everywhere P (e.simplify arguments) := by
  rw [simplify_eq_rebuild]
  apply everywhere_rebuild
  intro e hparts
  have hroot := rule e hparts
  have hstep := Simplify.node_step arguments e
  generalize Simplify.node arguments e = y at hroot hstep
  cases hstep with
  | constant v =>
      rw [everywhere_iff]
      exact ⟨hroot, nofun⟩
  | below hx hy => exact (hparts _ hx).of_subterm hy
  | built hbelow hleaf hred =>
      rw [everywhere_iff]
      refine ⟨hroot, ?_⟩
      intro z hz
      obtain ⟨x, hx, hzx⟩ := hbelow z hz
      exact (hparts x hx).of_subterm hzx

theorem simplify_reduced (e : Expr) :
    Everywhere (Simplify.Reduced arguments) (e.simplify arguments) :=
  everywhere_simplify arguments (fun _ => Simplify.reduced_node) e

theorem simplify_leaves {P : Expr → Prop} (hinner : ∀ e, e.lookup? = none → P e) {e : Expr}
    (h : Everywhere P e) : Everywhere P (e.simplify arguments) := by
  rw [simplify_eq_rebuild]
  refine everywhere_rebuild_of ?_ ?_ h
  · intro e g he
    cases e with
    | arg | col => exact he
    | _ => exact hinner _ rfl
  · intro e he hparts
    have hstep := Simplify.node_step arguments e
    generalize Simplify.node arguments e = y at hstep
    cases hstep with
    | constant v =>
        rw [everywhere_iff]
        exact ⟨hinner _ rfl, nofun⟩
    | below hx hy => exact (hparts _ hx).of_subterm hy
    | built hbelow hleaf _ =>
        rw [everywhere_iff]
        constructor
        · rcases hleaf with rfl | hleaf
          · exact he
          · exact hinner _ hleaf
        · intro z hz
          obtain ⟨x, hx, hzx⟩ := hbelow z hz
          exact (hparts x hx).of_subterm hzx

end Expr

end QueryExpr
