import QueryExpr.Expr.Demand
import QueryExpr.Proofs.Outcome
import QueryExpr.Proofs.Subterms

/-!
# What an evaluation sees of the parts

The outcome of a node is put together from the outcomes of its parts, so outcomes that are related
part by part are related for the node. The look-ups of an evaluation are among the columns and
arguments that occur, from left to right; a constant makes none and has one value for all inputs.
-/

namespace QueryExpr

/-- A relation between outcomes that sequencing preserves. -/
structure Outcome.Congruence (R : {α : Type} → Outcome α → Outcome α → Prop) : Prop where
  refl : ∀ {α : Type} (o : Outcome α), R o o
  bind : ∀ {α β : Type} {o p : Outcome α} {f g : α → Outcome β},
    R o p → (∀ a, R (f a) (g a)) → R (o >>= f) (p >>= g)

theorem Outcome.congruence_eq : Congruence (fun o p => o = p) where
  refl _ := rfl
  bind h hf := by rw [h, funext hf]

theorem Outcome.congruence_refinedBy : Congruence Outcome.RefinedBy where
  refl := RefinedBy.refl
  bind h hf := h.bind fun a _ => hf a

namespace Expr

/-- What a leaf asks of the input. -/
def lookup? : Expr → Option Lookup
  | arg position => some (.argument position)
  | col name _ => some (.column name)
  | _ => none

/-- The columns and arguments of an expression, from left to right. -/
def occurrences (e : Expr) : List Lookup := e.subterms.filterMap lookup?

theorem occurrences_eq (e : Expr) :
    e.occurrences = e.lookup?.toList ++ e.children.flatMap occurrences := by
  rw [occurrences, subterms_eq, List.filterMap_cons, List.filterMap_flatMap]
  cases e.lookup? <;> rfl

section Congruence

variable {R : {α : Type} → Outcome α → Outcome α → Prop} (hR : Outcome.Congruence R)
variable {i j : Input} {f g : Expr → Expr}
include hR

private theorem evalOperands_map (decisive sawNull : Bool) {xs : List Expr}
    (h : ∀ x ∈ xs, R ((f x).eval i) ((g x).eval j)) :
    R (evalOperands i decisive sawNull (xs.map f)) (evalOperands j decisive sawNull (xs.map g)) := by
  induction xs generalizing sawNull with
  | nil => exact hR.refl _
  | cons x xs ih =>
      have hxs : ∀ y ∈ xs, R ((f y).eval i) ((g y).eval j) := fun y hy => h y (by simp [hy])
      apply hR.bind (h x (by simp))
      intro v
      apply hR.bind (hR.refl _)
      rintro (_ | b)
      · exact ih true hxs
      · dsimp only
        split
        · exact hR.refl _
        · exact ih sawNull hxs

private theorem evalWhens_map {whens : List (When Expr)}
    (h : ∀ x ∈ whenParts whens, R ((f x).eval i) ((g x).eval j)) :
    R (evalWhens i (whens.map (When.map f))) (evalWhens j (whens.map (When.map g))) := by
  induction whens with
  | nil => exact hR.refl _
  | cons w ws ih =>
      have hws : ∀ x ∈ whenParts ws, R ((f x).eval i) ((g x).eval j) :=
        fun x hx => h x (List.mem_append_right _ hx)
      apply hR.bind (h w.condition (by simp [whenParts]))
      intro v
      apply hR.bind (hR.refl _)
      rintro (_ | _ | _)
      · exact ih hws
      · exact ih hws
      · exact hR.bind (h w.result (by simp [whenParts])) fun _ => hR.refl _

private theorem evalOption_map {otherwise : Option Expr}
    (h : ∀ x ∈ otherwise.toList, R ((f x).eval i) ((g x).eval j)) :
    R (evalOption i (otherwise.map f)) (evalOption j (otherwise.map g)) := by
  cases otherwise with
  | none => exact hR.refl _
  | some x => exact h x (by simp)

/-- Outcomes related part by part are related for a node that asks nothing itself. -/
theorem eval_mapChildren_congr {e : Expr} (hleaf : e.lookup? = none)
    (h : ∀ x ∈ e.children, R ((f x).eval i) ((g x).eval j)) :
    R ((e.mapChildren f).eval i) ((e.mapChildren g).eval j) := by
  cases e with
  | val v => exact hR.refl _
  | arg position => simp [lookup?] at hleaf
  | col name ty => simp [lookup?] at hleaf
  | and xs => exact evalOperands_map hR false false h
  | or xs => exact evalOperands_map hR true false h
  | cmp op l r =>
      apply hR.bind (h l (by simp [children]))
      intro v
      exact hR.bind (h r (by simp [children])) fun _ => hR.refl _
  | case whens otherwise ty =>
      apply hR.bind (evalWhens_map hR fun x hx => h x (List.mem_append_left _ hx))
      rintro (_ | v)
      · exact hR.bind (evalOption_map hR fun x hx => h x (List.mem_append_right _ hx))
          fun _ => hR.refl _
      · exact hR.refl _
  | cast x ty => exact hR.bind (h x (by simp [children])) fun _ => hR.refl _
  | isNull negated x => exact hR.bind (h x (by simp [children])) fun _ => hR.refl _
  | not x => exact hR.bind (h x (by simp [children])) fun _ => hR.refl _

theorem eval_mapChildren {e : Expr} (hleaf : e.lookup? = none)
    (h : ∀ x ∈ e.children, R (x.eval i) ((f x).eval j)) :
    R (e.eval i) ((e.mapChildren f).eval j) := by
  have hnode := eval_mapChildren_congr hR (i := i) (j := j) (f := id) (g := f) hleaf h
  rwa [mapChildren_id] at hnode

theorem eval_mapChildren_same {e : Expr} (h : ∀ x ∈ e.children, R (x.eval i) ((f x).eval i)) :
    R (e.eval i) ((e.mapChildren f).eval i) := by
  cases e with
  | arg | col => exact hR.refl _
  | _ => exact eval_mapChildren hR rfl h

end Congruence

section Lookups

variable (input : Input)

private theorem lookups_evalOperands (decisive sawNull : Bool) {xs : List Expr}
    (h : ∀ x ∈ xs, (x.eval input).lookups.Sublist x.occurrences) :
    (evalOperands input decisive sawNull xs).lookups.Sublist (xs.flatMap occurrences) := by
  induction xs generalizing sawNull with
  | nil => exact List.Sublist.refl _
  | cons x xs ih =>
      have hxs : ∀ y ∈ xs, (y.eval input).lookups.Sublist y.occurrences :=
        fun y hy => h y (by simp [hy])
      rw [List.flatMap_cons]
      apply Outcome.lookups_bind_sublist (h x (by simp))
      intro v
      rw [← List.nil_append (xs.flatMap occurrences)]
      apply Outcome.lookups_bind_sublist (List.Sublist.refl _)
      rintro (_ | b)
      · exact ih true hxs
      · dsimp only
        split
        · exact List.nil_sublist _
        · exact ih sawNull hxs

private theorem lookups_evalWhens {whens : List (When Expr)}
    (h : ∀ x ∈ whenParts whens, (x.eval input).lookups.Sublist x.occurrences) :
    (evalWhens input whens).lookups.Sublist ((whenParts whens).flatMap occurrences) := by
  induction whens with
  | nil => exact List.Sublist.refl _
  | cons w ws ih =>
      have hws := ih fun x hx => h x (List.mem_append_right _ hx)
      have hc := h w.condition (by simp [whenParts])
      have hr := h w.result (by simp [whenParts])
      change List.Sublist _ (w.condition.occurrences ++ (w.result.occurrences ++
        (whenParts ws).flatMap occurrences))
      apply Outcome.lookups_bind_sublist hc
      intro v
      rw [← List.nil_append (w.result.occurrences ++ _)]
      apply Outcome.lookups_bind_sublist (List.Sublist.refl _)
      rintro (_ | _ | _)
      · exact hws.trans (List.sublist_append_right _ _)
      · exact hws.trans (List.sublist_append_right _ _)
      · exact Outcome.lookups_bind_sublist hr fun _ => List.nil_sublist _

theorem lookups_sublist_occurrences (e : Expr) :
    (e.eval input).lookups.Sublist e.occurrences := by
  induction e using induct with
  | node e ih =>
      rw [occurrences_eq]
      cases e with
      | val v => exact List.nil_sublist _
      | arg position => exact List.Sublist.refl _
      | col name ty => exact List.Sublist.refl _
      | and xs => exact lookups_evalOperands input false false ih
      | or xs => exact lookups_evalOperands input true false ih
      | cmp op l r =>
          apply Outcome.lookups_bind_sublist (ih l (by simp [children]))
          intro v
          exact Outcome.lookups_bind_sublist (ih r (by simp [children])) fun _ =>
            List.nil_sublist _
      | case whens otherwise ty =>
          rw [children, List.flatMap_append]
          apply Outcome.lookups_bind_sublist
            (lookups_evalWhens input fun x hx => ih x (List.mem_append_left _ hx))
          rintro (_ | v)
          · rw [← List.append_nil (otherwise.toList.flatMap occurrences)]
            apply Outcome.lookups_bind_sublist _ fun _ => List.nil_sublist _
            cases otherwise with
            | none => exact List.nil_sublist _
            | some x =>
                simpa [evalOption] using ih x (by simp [children])
          · exact List.nil_sublist _
      | cast x ty | isNull negated x =>
          change List.Sublist _ (x.occurrences ++ [])
          exact Outcome.lookups_bind_sublist (ih x (by simp [children])) fun _ =>
            List.nil_sublist _
      | not x =>
          change List.Sublist _ (x.occurrences ++ ([] ++ []))
          apply Outcome.lookups_bind_sublist (ih x (by simp [children]))
          intro v
          exact Outcome.lookups_bind_sublist (List.Sublist.refl _) fun _ => List.nil_sublist _

end Lookups

theorem isConst_iff {e : Expr} : e.isConst = true ↔ e.occurrences = [] := by
  induction e using induct with
  | node e ih =>
      rw [isConst_eq, occurrences_eq]
      cases e with
      | arg | col => simp [lookup?]
      | _ =>
          simp only [lookup?, Option.toList_none, List.nil_append, List.flatMap_eq_nil_iff,
            List.all_eq_true]
          exact forall₂_congr ih

theorem isConst_of_child {x e : Expr} (he : e.isConst = true) (hx : x ∈ e.children) :
    x.isConst = true := by
  rw [isConst_iff, occurrences_eq, List.append_eq_nil_iff, List.flatMap_eq_nil_iff] at he
  exact isConst_iff.mpr (he.2 x hx)

private theorem eval_eq_of_isConst {e : Expr} (he : e.isConst = true) (i j : Input) :
    e.eval i = e.eval j := by
  induction e using induct with
  | node e ih =>
      have hleaf : e.lookup? = none := by
        rw [isConst_iff, occurrences_eq, List.append_eq_nil_iff, Option.toList_eq_nil_iff] at he
        exact he.1
      have := eval_mapChildren Outcome.congruence_eq hleaf (i := i) (j := j) (f := id)
        fun x hx => ih x hx (isConst_of_child he hx)
      rwa [mapChildren_id] at this

theorem eval_of_isConst {e : Expr} (he : e.isConst = true) (input : Input) :
    e.eval input = Outcome.ofResult e.evalConst := by
  rw [eval_eq_of_isConst he input Input.empty]
  have hnone := lookups_sublist_occurrences Input.empty e
  rw [isConst_iff.mp he, List.sublist_nil] at hnone
  apply Outcome.ext
  · rfl
  · exact hnone

end Expr

end QueryExpr
