import Mathlib.Data.List.Flatten
import QueryExpr.Proofs.Rewriting
import QueryExpr.Proofs.Slots

/-!
# Simplification only takes away

An expression and what becomes of it are compared by their nodes, listed as a reader meets them: no
rule of simplification makes the list longer, and the columns and arguments on it stay in their
order. Such comparisons can be put together, so they pass from the parts of a node to the node.
-/

namespace QueryExpr

namespace Expr

def nodeCount (e : Expr) : Nat := e.subterms.length

/-- There are no more nodes than the others, and what they ask is part of what those ask. -/
structure Fewer (xs ys : List Expr) : Prop where
  length_le : xs.length ≤ ys.length
  lookups_sublist : (xs.filterMap lookup?).Sublist (ys.filterMap lookup?)

section Fewer

variable {xs ys zs : List Expr}

theorem Fewer.of_sublist (h : xs.Sublist ys) : Fewer xs ys := ⟨h.length_le, h.filterMap _⟩

theorem Fewer.trans (hxy : Fewer xs ys) (hyz : Fewer ys zs) : Fewer xs zs :=
  ⟨Nat.le_trans hxy.length_le hyz.length_le, hxy.lookups_sublist.trans hyz.lookups_sublist⟩

theorem Fewer.append {xs' ys' : List Expr} (h : Fewer xs ys) (h' : Fewer xs' ys') :
    Fewer (xs ++ xs') (ys ++ ys') := by
  constructor
  · rw [List.length_append, List.length_append]
    exact Nat.add_le_add h.length_le h'.length_le
  · rw [List.filterMap_append, List.filterMap_append]
    exact h.lookups_sublist.append h'.lookups_sublist

theorem Fewer.cons {x y : Expr} (hxy : x.lookup? = y.lookup?) (h : Fewer xs ys) :
    Fewer (x :: xs) (y :: ys) := by
  constructor
  · exact Nat.succ_le_succ h.length_le
  · rw [List.filterMap_cons, List.filterMap_cons, hxy]
    cases y.lookup? with
    | none => exact h.lookups_sublist
    | some l => exact h.lookups_sublist.cons_cons l

theorem Fewer.swap (h : xs.filterMap lookup? = []) : Fewer (ys ++ xs) (xs ++ ys) := by
  have hlength : (ys ++ xs).length = (xs ++ ys).length := by
    rw [List.length_append, List.length_append, Nat.add_comm]
  have hlookups : (ys ++ xs).filterMap lookup? = (xs ++ ys).filterMap lookup? := by
    rw [List.filterMap_append, List.filterMap_append, h, List.append_nil, List.nil_append]
  exact ⟨Nat.le_of_eq hlength, hlookups ▸ List.Sublist.refl _⟩

theorem Fewer.flatMap {f g : Expr → List Expr} (h : ∀ x ∈ xs, Fewer (f x) (g x)) :
    Fewer (xs.flatMap f) (xs.flatMap g) := by
  induction xs with
  | nil => exact .of_sublist (List.Sublist.refl _)
  | cons x xs ih =>
      obtain ⟨hx, hxs⟩ := List.forall_mem_cons.mp h
      exact hx.append (ih hxs)

theorem fewer_constant (v : Value) (e : Expr) : Fewer (val v).subterms e.subterms := by
  rw [subterms_eq e]
  exact ⟨Nat.succ_le_succ (Nat.zero_le _), List.nil_sublist _⟩

theorem subterms_sublist {x e : Expr} (h : x ∈ e.subterms) : x.subterms.Sublist e.subterms := by
  induction e using induct with
  | node e ih =>
      rcases mem_subterms.mp h with rfl | ⟨y, hy, hx⟩
      · exact List.Sublist.refl _
      · have hparts : ([y].flatMap subterms).Sublist (e.children.flatMap subterms) :=
          (List.singleton_sublist.mpr hy).flatMap subterms
        rw [List.flatMap_singleton] at hparts
        rw [subterms_eq e]
        exact ((ih y hy hx).trans hparts).cons e

theorem fewer_of_mem {x e : Expr} (h : x ∈ e.subterms) : Fewer x.subterms e.subterms :=
  .of_sublist (subterms_sublist h)

/-- A node may take the place of another if its parts are in the place of the parts of that. -/
theorem fewer_of_children {x e : Expr} (hleaf : x.lookup? = e.lookup?)
    (h : Fewer (x.children.flatMap subterms) (e.children.flatMap subterms)) :
    Fewer x.subterms e.subterms := by
  rw [subterms_eq x, subterms_eq e]
  exact h.cons hleaf

end Fewer

end Expr

namespace Simplify

open QueryExpr.Expr

private theorem fewer_foldConst {x e : Expr} (h : Fewer x.subterms e.subterms) :
    Fewer (foldConst x).subterms e.subterms := by
  rcases foldConst_cases x with ⟨v, hv, -, -⟩ | ⟨hkeep, -⟩
  · rw [hv]
    exact fewer_constant v e
  · rwa [hkeep]

private theorem Splits.subterms_sublist {connective : List Expr → Expr}
    {parts : Expr → List Expr} (hs : Splits connective parts) (x : Expr) :
    ((parts x).flatMap subterms).Sublist x.subterms := by
  by_cases hx : ∃ xs, x = connective xs
  · obtain ⟨xs, rfl⟩ := hx
    rw [hs.same, subterms_eq, hs.children]
    exact List.sublist_cons_self _ _
  · have hself : (parts x).flatMap subterms = x.subterms := by
      rw [hs.other (not_exists.mp hx), List.flatMap_singleton]
    exact hself ▸ List.Sublist.refl _

private theorem fewer_connect (decisive : Bool) {connective : List Expr → Expr}
    {parts : Expr → List Expr} (hs : Splits connective parts)
    (hleaf : ∀ xs, (connective xs).lookup? = none) (xs : List Expr) :
    Fewer (connect decisive connective (xs.flatMap parts)).subterms (connective xs).subterms := by
  have hspliced : ((xs.flatMap parts).flatMap subterms).Sublist (xs.flatMap subterms) := by
    rw [List.flatMap_assoc]
    exact List.Sublist.flatMap_right xs fun x _ => hs.subterms_sublist x
  unfold connect
  split
  · exact fewer_constant _ _
  · have hkept : (((xs.flatMap parts).filter fun x => !x.isTruth (!decisive)).flatMap
        subterms).Sublist (xs.flatMap subterms) :=
      (List.filter_sublist.flatMap subterms).trans hspliced
    split
    · exact fewer_constant _ _
    · rename_i y hy
      rw [hy, List.flatMap_singleton] at hkept
      apply Fewer.of_sublist
      rw [subterms_eq (connective xs), hs.children]
      exact hkept.cons _
    · apply fewer_of_children ((hleaf _).trans (hleaf xs).symm)
      rw [hs.children, hs.children]
      exact .of_sublist hkept

private theorem fewer_compareOperands (op : Comparison) (l r : Expr) :
    Fewer (compareOperands op l r).subterms (Expr.cmp op l r).subterms := by
  unfold compareOperands
  split
  · exact fewer_constant _ _
  · split
    · rename_i hswap
      cases l with
      | val v =>
          have hmoved : Fewer (r.subterms ++ (val v).subterms) ((val v).subterms ++ r.subterms) :=
            Fewer.swap rfl
          apply fewer_of_children
          · rfl
          · simpa only [children, List.flatMap_cons, List.flatMap_nil, List.append_nil] using hmoved
      | _ => cases hswap
    · exact fewer_of_mem (self_mem_subterms _)

private theorem fewer_castOperand (arguments : List Ty) (x : Expr) (ty : Ty) :
    Fewer (castOperand arguments x ty).subterms (Expr.cast x ty).subterms := by
  unfold castOperand
  split
  · exact fewer_of_mem (child_mem_subterms (List.mem_singleton_self x))
  · exact fewer_of_mem (self_mem_subterms _)

private theorem fewer_testNull (arguments : List Ty) (negated : Bool) (x : Expr) :
    Fewer (testNull arguments negated x).subterms (Expr.isNull negated x).subterms := by
  unfold testNull
  split
  · rename_i y ty
    split
    · apply fewer_of_children
      · rfl
      · simp only [children, List.flatMap_singleton]
        exact fewer_of_mem (child_mem_subterms (List.mem_singleton_self y))
    · exact fewer_of_mem (self_mem_subterms _)
  · exact fewer_constant _ _
  · exact fewer_of_mem (self_mem_subterms _)

private theorem fewer_negate (x : Expr) : Fewer (negate x).subterms (Expr.not x).subterms := by
  unfold negate
  split
  · rename_i y
    exact fewer_of_mem (mem_subterms_of_child (List.mem_singleton_self _)
      (child_mem_subterms (List.mem_singleton_self y)))
  · exact fewer_of_mem (self_mem_subterms _)

private theorem fewer_foldCase (arguments : List Ty) (whens : List (When Expr))
    (otherwise : Option Expr) (ty : Option Ty) :
    Fewer (foldCase arguments whens otherwise).subterms
      (Expr.case whens otherwise ty).subterms := by
  rcases foldCase_cases arguments whens otherwise with h | h | h
  · rw [h]
    exact fewer_constant _ _
  · exact fewer_of_mem (child_mem_subterms (mem_children_of_mem_results h))
  · rw [h]
    exact fewer_of_children rfl (.of_sublist (List.Sublist.refl _))

/-- The rule takes nodes away from the one it rewrites and adds none. -/
theorem fewer_node (arguments : List Ty) (e : Expr) :
    Fewer (node arguments e).subterms e.subterms := by
  cases e with
  | val | arg | col => exact fewer_of_mem (self_mem_subterms _)
  | and xs => exact fewer_foldConst (fewer_connect false splits_conjuncts (fun _ => rfl) xs)
  | or xs => exact fewer_foldConst (fewer_connect true splits_disjuncts (fun _ => rfl) xs)
  | cmp op l r => exact fewer_foldConst (fewer_compareOperands op l r)
  | case whens otherwise ty => exact fewer_foldCase arguments whens otherwise ty
  | cast x ty => exact fewer_foldConst (fewer_castOperand arguments x ty)
  | isNull negated x => exact fewer_foldConst (fewer_testNull arguments negated x)
  | not x => exact fewer_foldConst (fewer_negate x)

end Simplify

namespace Expr

private theorem lookup?_mapChildren (f : Expr → Expr) (e : Expr) :
    (e.mapChildren f).lookup? = e.lookup? := by
  cases e <;> rfl

theorem fewer_simplify (arguments : List Ty) (e : Expr) :
    Fewer (e.simplify arguments).subterms e.subterms := by
  induction e using induct with
  | node e ih =>
      have hnode := Simplify.fewer_node arguments (e.mapChildren (simplify arguments))
      have hparts : Fewer (e.mapChildren (simplify arguments)).subterms e.subterms := by
        apply fewer_of_children (lookup?_mapChildren _ e)
        rw [children_mapChildren, List.flatMap_map]
        exact Fewer.flatMap ih
      rw [simplify_eq]
      exact hnode.trans hparts

theorem argument_mem_occurrences {e : Expr} {n : Nat} :
    .argument n ∈ e.occurrences ↔ .argument n ∈ e.slots := by
  rw [argument_mem_slots, occurrences, List.mem_filterMap]
  constructor
  · rintro ⟨x, hx, hlookup⟩
    cases x <;> cases hlookup
    exact hx
  · intro h
    exact ⟨arg n, h, rfl⟩

/--
Simplified, an expression has no more nodes than before. The columns and arguments that are left are
some of those that were there, in their order; so no new one is asked for, and the expression
reaches for no further arguments.
-/
theorem simplify_shrinks (arguments : List Ty) (e : Expr) :
    (e.simplify arguments).nodeCount ≤ e.nodeCount ∧
      (e.simplify arguments).occurrences.Sublist e.occurrences ∧
      (e.simplify arguments).occurrences ⊆ e.occurrences ∧
      (e.simplify arguments).argumentCount ≤ e.argumentCount := by
  obtain ⟨hlength, hlookups⟩ := fewer_simplify arguments e
  refine ⟨hlength, hlookups, hlookups.subset, argumentCount_le_iff.mpr fun n hn => ?_⟩
  have hmem : .argument n ∈ e.occurrences := hlookups.subset (argument_mem_occurrences.mpr hn)
  exact lt_argumentCount (argument_mem_occurrences.mp hmem)

end Expr

end QueryExpr
