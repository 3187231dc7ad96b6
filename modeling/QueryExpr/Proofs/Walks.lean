import QueryExpr.Proofs.Subterms
import QueryExpr.Walk.Log

/-!
# The calls of a walk

Both walks take the parts of a node from left to right (`below_caller`, `rebuildM_eq`). So what a
walk does is known once it is known in which order it calls on the nodes and which expression it
returns: from the root it calls on the subterms as a reader meets them, and from the leaves it calls
on every node when the parts are finished.
-/

namespace QueryExpr

variable {m : Type → Type} [Monad m]

/-- Calls on the expressions one after the other and returns the result. -/
def callEach {α : Type} (call : Expr → m Unit) (xs : List Expr) (result : α) : m α := do
  forM xs call
  return result

namespace Expr

/-- The effectful form of `mapChildren`, from left to right. -/
def mapChildrenM (f : Expr → m Expr) : Expr → m Expr
  | val v => return val v
  | arg position => return arg position
  | col name ty => return col name ty
  | and xs => return and (← xs.mapM f)
  | or xs => return or (← xs.mapM f)
  | cmp op l r => return cmp op (← f l) (← f r)
  | case whens otherwise ty => do
      let whens' ← whens.mapM fun w => return ⟨← f w.condition, ← f w.result⟩
      let otherwise' ← otherwise.mapM f
      return case whens' otherwise' ty
  | cast x ty => return cast (← f x) ty
  | isNull negated x => return isNull negated (← f x)
  | not x => return not (← f x)

/-- The nodes of an expression in the order in which they are finished, the parts of each first. -/
def finished : Expr → List Expr := fold fun e parts => parts.flatten ++ [e]

theorem finished_eq (e : Expr) : e.finished = e.children.flatMap finished ++ [e] := by
  rw [finished, fold_eq]
  rfl

section Parts

variable [LawfulMonad m] {α β : Type} {call : Expr → m Unit} {calls : Expr → List Expr}

theorem callEach_nil (a : α) : callEach call [] a = pure a := pure_bind _ _

theorem callEach_bind (xs : List Expr) (a : α) (next : α → m β) :
    callEach call xs a >>= next = forM xs call >>= fun _ => next a := by
  rw [callEach, bind_assoc]
  simp only [pure_bind]

theorem callEach_append (xs ys : List Expr) (a : α) :
    callEach call (xs ++ ys) a = forM xs call >>= fun _ => callEach call ys a := by
  rw [callEach, List.forM_append, bind_assoc]
  rfl

private theorem mapM_callEach {f : Expr → m Expr} {g : Expr → Expr} {xs : List Expr}
    (h : ∀ x ∈ xs, f x = callEach call (calls x) (g x)) :
    xs.mapM f = callEach call (xs.flatMap calls) (xs.map g) := by
  induction xs with
  | nil => exact (callEach_nil []).symm
  | cons x xs ih =>
      obtain ⟨hx, hxs⟩ := List.forall_mem_cons.mp h
      rw [List.mapM_cons, hx, ih hxs, callEach_bind, List.flatMap_cons, callEach_append]
      simp only [callEach_bind]
      rfl

private theorem mapWhensM_callEach {f : Expr → m Expr} {g : Expr → Expr}
    {whens : List (When Expr)} (h : ∀ x ∈ whenParts whens, f x = callEach call (calls x) (g x)) :
    (whens.mapM fun w => (return ⟨← f w.condition, ← f w.result⟩ : m (When Expr))) =
      callEach call ((whenParts whens).flatMap calls) (whens.map (When.map g)) := by
  induction whens with
  | nil => exact (callEach_nil []).symm
  | cons w ws ih =>
      have hc := h w.condition (by simp [whenParts])
      have hr := h w.result (by simp [whenParts])
      have hws := ih fun x hx => h x (List.mem_append_right _ hx)
      have hparts : (whenParts (w :: ws)).flatMap calls = calls w.condition ++
          (calls w.result ++ (whenParts ws).flatMap calls) := rfl
      rw [List.mapM_cons, hws, hparts, callEach_append, callEach_append]
      simp only [hc, hr, callEach_bind, bind_assoc, pure_bind]
      rfl

/-- What is called on for every part, and what it is replaced by, tell what is done to the node. -/
theorem mapChildrenM_callEach {f : Expr → m Expr} {g : Expr → Expr} {e : Expr}
    (h : ∀ x ∈ e.children, f x = callEach call (calls x) (g x)) :
    e.mapChildrenM f = callEach call (e.children.flatMap calls) (e.mapChildren g) := by
  cases e with
  | val | arg | col => exact (callEach_nil _).symm
  | and xs | or xs =>
      have hxs : ∀ x ∈ xs, f x = callEach call (calls x) (g x) := h
      rw [mapChildrenM, mapM_callEach hxs, callEach_bind]
      rfl
  | cmp op l r =>
      have hl := h l (by simp [children])
      have hr := h r (by simp [children])
      have hparts : (cmp op l r).children.flatMap calls = calls l ++ calls r := by
        simp [children]
      rw [mapChildrenM, hl, hr, callEach_bind, hparts, callEach_append]
      simp only [callEach_bind]
      rfl
  | case whens otherwise ty =>
      have hwhens := mapWhensM_callEach fun x hx => h x (List.mem_append_left _ hx)
      have hparts : (case whens otherwise ty).children.flatMap calls =
          (whenParts whens).flatMap calls ++ otherwise.toList.flatMap calls :=
        List.flatMap_append
      have helse : otherwise.mapM f =
          callEach call (otherwise.toList.flatMap calls) (otherwise.map g) := by
        cases otherwise with
        | none => exact (callEach_nil none).symm
        | some x =>
            rw [Option.mapM_some, h x (otherwise_mem_children rfl)]
            simp [callEach]
      rw [mapChildrenM, hwhens, helse, callEach_bind, hparts, callEach_append]
      simp only [callEach_bind]
      rfl
  | cast x ty | isNull negated x | not x =>
      have hparts : [x].flatMap calls = calls x := List.flatMap_singleton ..
      rw [mapChildrenM, h x (List.mem_singleton_self x), callEach_bind, children, hparts]
      rfl

end Parts

section Up

variable [LawfulMonad m]

private theorem rebuildListM_eq (f : Expr → m Expr) (xs : List Expr) :
    rebuildListM f xs = xs.mapM (rebuildM f) := by
  induction xs with
  | nil => rfl
  | cons x xs ih => rw [rebuildListM, List.mapM_cons, ih]

private theorem rebuildWhensM_eq (f : Expr → m Expr) (ws : List (When Expr)) :
    rebuildWhensM f ws =
      ws.mapM fun w => return ⟨← rebuildM f w.condition, ← rebuildM f w.result⟩ := by
  induction ws with
  | nil => rfl
  | cons w ws ih => simp only [rebuildWhensM, List.mapM_cons, ih, bind_assoc, pure_bind]

private theorem rebuildOptionM_eq (f : Expr → m Expr) (o : Option Expr) :
    rebuildOptionM f o = o.mapM (rebuildM f) := by
  cases o with
  | none => rfl
  | some x => rw [rebuildOptionM, Option.mapM_some, bind_pure_comp]

theorem rebuildM_eq (f : Expr → m Expr) (e : Expr) :
    rebuildM f e = e.mapChildrenM (rebuildM f) >>= f := by
  cases e <;>
    simp only [rebuildM, mapChildrenM, rebuildListM_eq, rebuildWhensM_eq, rebuildOptionM_eq,
      bind_assoc, pure_bind]

/-- The walk calls on every node once its parts have been replaced, and then replaces the node. -/
theorem rebuildM_callEach (call : Expr → m Unit) (g : Expr → Expr) (e : Expr) :
    rebuildM (fun x => do call x; return g x) e =
      callEach call (e.finished.map fun x => x.mapChildren (rebuild g)) (rebuild g e) := by
  induction e using induct with
  | node e ih =>
      rw [rebuildM_eq, mapChildrenM_callEach ih, callEach_bind, finished_eq, List.map_append,
        List.map_flatMap, callEach_append, rebuild_eq]
      simp [callEach]

end Up

end Expr

namespace LeafChange

variable (c : LeafChange)

/-- The change at a node that is a leaf. -/
def leaf : Expr → Expr
  | .val v => .val (c.value v)
  | .col name ty => .col (c.column name) ty
  | e => e

/-- The expression with all its leaves changed. -/
def apply (e : Expr) : Expr := e.rebuild c.leaf

theorem apply_eq (e : Expr) : c.apply e = c.leaf (e.mapChildren c.apply) := Expr.rebuild_eq _ e

/-- Makes the changes, and calls on every expression and then, by its kind, on the node. -/
def caller (enter node : Expr → m Unit) : Visitor m where
  expr := enter
  node := node
  column name := pure (c.column name)
  value v := pure (c.value v)

section Down

variable [LawfulMonad m] (enter node : Expr → m Unit)

private theorem visitList_eq (xs : List Expr) :
    (c.caller enter node).visitList xs = xs.mapM (c.caller enter node).visit := by
  induction xs with
  | nil => rfl
  | cons x xs ih => simp only [Visitor.visitList, List.mapM_cons, ih, Visitor.visit, bind_assoc]

private theorem visitWhens_eq (ws : List (When Expr)) :
    (c.caller enter node).visitWhens ws = ws.mapM fun w =>
      return ⟨← (c.caller enter node).visit w.condition,
        ← (c.caller enter node).visit w.result⟩ := by
  induction ws with
  | nil => rfl
  | cons w ws ih =>
      have hbranch : (c.caller enter node).branch w = pure () := rfl
      simp only [Visitor.visitWhens, hbranch, List.mapM_cons, ih, Visitor.visit, bind_assoc,
        pure_bind]

private theorem visitOption_eq (o : Option Expr) :
    (c.caller enter node).visitOption o = o.mapM (c.caller enter node).visit := by
  cases o with
  | none => rfl
  | some x =>
      simp only [Visitor.visitOption, Option.mapM_some, Visitor.visit, map_bind, bind_pure_comp]

theorem below_caller (e : Expr) :
    (c.caller enter node).below e = node e >>= fun _ =>
      e.mapChildrenM (c.caller enter node).visit >>= fun e' => pure (c.leaf e') := by
  have hvalue : ∀ v, (c.caller enter node).value v = pure (c.value v) := fun _ => rfl
  have hcolumn : ∀ name, (c.caller enter node).column name = pure (c.column name) :=
    fun _ => rfl
  cases e <;>
    simp only [Visitor.below, Expr.mapChildrenM, visitList_eq, visitWhens_eq, visitOption_eq,
      hvalue, hcolumn, Visitor.visit, bind_assoc, pure_bind] <;> rfl

/-- The walk calls on the subterms as a reader meets them and changes nothing but leaves. -/
theorem visit_caller (e : Expr) :
    (c.caller enter node).visit e =
      callEach (fun x => do enter x; node x) e.subterms (c.apply e) := by
  induction e using Expr.induct with
  | node e ih =>
      rw [Visitor.visit, below_caller, Expr.mapChildrenM_callEach ih, Expr.callEach_bind,
        Expr.subterms_eq, apply_eq]
      simp [callEach, caller]

end Down

theorem visit_visitor (e : Expr) : c.visitor.visit e = c.apply e :=
  visit_caller (m := Id) c (fun _ => ()) (fun _ => ()) e

end LeafChange

end QueryExpr
