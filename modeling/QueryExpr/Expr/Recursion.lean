import QueryExpr.Expr

/-!
# Recursion over expressions

The direct parts of a node, from left to right, and the two recursions that see nothing else: a
fold, and a rebuilding from the leaves to the root. Both are determined by the parts
(`fold_eq`, `rebuild_eq`), and an induction needs only one case (`Expr.induct`).
-/

namespace QueryExpr.Expr

/-- Conditions and results of the branches, in the order in which they are written. -/
def whenParts (whens : List (When Expr)) : List Expr :=
  whens.flatMap fun w => [w.condition, w.result]

def children : Expr → List Expr
  | val _ | arg _ | col _ _ => []
  | and xs | or xs => xs
  | cmp _ l r => [l, r]
  | case whens otherwise _ => whenParts whens ++ otherwise.toList
  | cast x _ | isNull _ x | not x => [x]

def mapChildren (f : Expr → Expr) : Expr → Expr
  | val v => val v
  | arg n => arg n
  | col name ty => col name ty
  | and xs => and (xs.map f)
  | or xs => or (xs.map f)
  | cmp op l r => cmp op (f l) (f r)
  | case whens otherwise ty => case (whens.map (When.map f)) (otherwise.map f) ty
  | cast x ty => cast (f x) ty
  | isNull negated x => isNull negated (f x)
  | not x => not (f x)

section Fold

variable {α : Type} (f : Expr → List α → α)

mutual

/-- Combines every node with the results of its parts. -/
def fold : Expr → α
  | val v => f (val v) []
  | arg n => f (arg n) []
  | col name ty => f (col name ty) []
  | and xs => f (and xs) (foldList xs)
  | or xs => f (or xs) (foldList xs)
  | cmp op l r => f (cmp op l r) [fold l, fold r]
  | case whens otherwise ty =>
      f (case whens otherwise ty) (foldWhens whens ++ foldOption otherwise)
  | cast x ty => f (cast x ty) [fold x]
  | isNull negated x => f (isNull negated x) [fold x]
  | not x => f (not x) [fold x]

def foldList : List Expr → List α
  | [] => []
  | x :: xs => fold x :: foldList xs

def foldWhens : List (When Expr) → List α
  | [] => []
  | ⟨c, r⟩ :: ws => fold c :: fold r :: foldWhens ws

def foldOption : Option Expr → List α
  | none => []
  | some x => [fold x]

end

private theorem foldList_eq (xs : List Expr) : foldList f xs = xs.map (fold f) := by
  induction xs with
  | nil => rfl
  | cons x xs ih => simp only [foldList, List.map_cons, ih]

private theorem foldWhens_eq (ws : List (When Expr)) :
    foldWhens f ws = (whenParts ws).map (fold f) := by
  induction ws with
  | nil => rfl
  | cons w ws ih =>
      simp only [foldWhens, ih]
      rfl

private theorem foldOption_eq (o : Option Expr) : foldOption f o = o.toList.map (fold f) := by
  cases o <;> rfl

theorem fold_eq (e : Expr) : fold f e = f e (e.children.map (fold f)) := by
  cases e <;>
    simp only [fold, children, foldList_eq, foldWhens_eq, foldOption_eq, List.map_append,
      List.map_cons, List.map_nil]

end Fold

section Rebuild

variable (f : Expr → Expr)

mutual

/-- Rebuilds the parts of a node first and then the node they make. -/
def rebuild : Expr → Expr
  | val v => f (val v)
  | arg n => f (arg n)
  | col name ty => f (col name ty)
  | and xs => f (and (rebuildList xs))
  | or xs => f (or (rebuildList xs))
  | cmp op l r => f (cmp op (rebuild l) (rebuild r))
  | case whens otherwise ty => f (case (rebuildWhens whens) (rebuildOption otherwise) ty)
  | cast x ty => f (cast (rebuild x) ty)
  | isNull negated x => f (isNull negated (rebuild x))
  | not x => f (not (rebuild x))

def rebuildList : List Expr → List Expr
  | [] => []
  | x :: xs => rebuild x :: rebuildList xs

def rebuildWhens : List (When Expr) → List (When Expr)
  | [] => []
  | ⟨c, r⟩ :: ws => ⟨rebuild c, rebuild r⟩ :: rebuildWhens ws

def rebuildOption : Option Expr → Option Expr
  | none => none
  | some x => some (rebuild x)

end

private theorem rebuildList_eq (xs : List Expr) : rebuildList f xs = xs.map (rebuild f) := by
  induction xs with
  | nil => rfl
  | cons x xs ih => simp only [rebuildList, List.map_cons, ih]

private theorem rebuildWhens_eq (ws : List (When Expr)) :
    rebuildWhens f ws = ws.map (When.map (rebuild f)) := by
  induction ws with
  | nil => rfl
  | cons w ws ih => simp only [rebuildWhens, List.map_cons, ih, When.map]

private theorem rebuildOption_eq (o : Option Expr) : rebuildOption f o = o.map (rebuild f) := by
  cases o <;> rfl

theorem rebuild_eq (e : Expr) : rebuild f e = f (e.mapChildren (rebuild f)) := by
  cases e <;>
    simp only [rebuild, mapChildren, rebuildList_eq, rebuildWhens_eq, rebuildOption_eq]

end Rebuild

private theorem sizeOf_children {e x : Expr} (h : x ∈ e.children) : sizeOf x < sizeOf e := by
  cases e with
  | val | arg | col => simp [children] at h
  | and xs | or xs =>
      have := List.sizeOf_lt_of_mem (show x ∈ xs from h)
      simp only [and.sizeOf_spec, or.sizeOf_spec]
      omega
  | cmp op l r =>
      simp only [children, List.mem_cons, List.not_mem_nil, or_false] at h
      rcases h with rfl | rfl <;> simp only [cmp.sizeOf_spec] <;> omega
  | cast y ty | isNull negated y | not y =>
      simp only [children, List.mem_cons, List.not_mem_nil, or_false] at h
      subst h
      simp only [cast.sizeOf_spec, isNull.sizeOf_spec, not.sizeOf_spec]
      omega
  | case whens otherwise ty =>
      simp only [children, whenParts, List.mem_append, List.mem_flatMap, List.mem_cons,
        List.not_mem_nil, or_false, Option.mem_toList] at h
      simp only [case.sizeOf_spec]
      rcases h with ⟨w, hw, hx⟩ | h
      · have hlt := List.sizeOf_lt_of_mem hw
        have : sizeOf x < sizeOf w := by
          cases w
          rcases hx with rfl | rfl <;> simp only [When.mk.sizeOf_spec] <;> omega
        omega
      · subst h
        simp only [Option.some.sizeOf_spec]
        omega

/-- What passes from the parts of every node to the node holds of every expression. -/
theorem induct {motive : Expr → Prop}
    (node : ∀ e, (∀ x ∈ e.children, motive x) → motive e) (e : Expr) : motive e :=
  node e fun x _ => induct node x
termination_by sizeOf e
decreasing_by exact sizeOf_children ‹_›

end QueryExpr.Expr
