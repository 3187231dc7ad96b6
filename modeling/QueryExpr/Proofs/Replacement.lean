import QueryExpr.Proofs.Places

/-!
# Replaced constants

One constant is replaced by another wherever it stands. Both walks can do so, and both make the same
expression. They call on every node once: from the root before anything below the node has been
touched, and from the leaves when all of its parts have been replaced.
-/

namespace QueryExpr

/-- Replaces the constants on the way down and calls on every node before its parts. -/
def Visitor.replacer {m : Type → Type} [Monad m] (old new : Value) (enter arrive : Expr → m Unit) :
    Visitor m where
  expr := enter
  node := arrive
  value v := pure (old.replace new v)

namespace Expr

open Place Visitor

/-- The node without its parts. -/
def head (e : Expr) : Expr := e.mapChildren fun _ => val .null

/-- The replacement at a node that is a constant. -/
def replaceConstant (old new : Value) : Expr → Expr
  | val v => val (old.replace new v)
  | e => e

/-- Constants that equal `old` become `new`, wherever they stand. -/
def replaceConstants (old new : Value) : Expr → Expr := rebuild (replaceConstant old new)

/-- A rule that keeps the parts of a node keeps every place and rebuilds what is found there. -/
theorem at?_rebuild {f : Expr → Expr} (hf : ∀ x, (f x).children = x.children) (e : Expr)
    (p : Place) : (rebuild f e).at? p = (e.at? p).map (rebuild f) := by
  induction p generalizing e with
  | nil => rfl
  | cons i p ih =>
      rw [at?, at?, children_rebuild hf, List.getElem?_map, Option.bind_map, Option.map_bind]
      exact congrArg (Option.bind _) (funext fun x => ih x)

variable (old new : Value)

theorem children_replaceConstant (e : Expr) :
    (e.replaceConstant old new).children = e.children := by
  cases e <;> rfl

theorem replaceConstant_mapChildren (f : Expr → Expr) (e : Expr) :
    (e.mapChildren f).replaceConstant old new = (e.replaceConstant old new).mapChildren f := by
  cases e <;> rfl

theorem head_replaceConstants (e : Expr) :
    (e.replaceConstants old new).head = (e.replaceConstant old new).head := by
  rw [replaceConstants, rebuild_eq, replaceConstant_mapChildren]
  exact mapChildren_mapChildren _ _ _

theorem at?_replaceConstants (e : Expr) (p : Place) :
    ((e.replaceConstants old new).at? p).map head =
      (e.at? p).map fun x => (x.replaceConstant old new).head := by
  rw [replaceConstants, at?_rebuild (children_replaceConstant old new), Option.map_map]
  exact congrArg (Option.map · _) (funext (head_replaceConstants old new))

section Walks

variable {m : Type → Type} [Monad m] [LawfulMonad m] (enter arrive finish : Expr → m Unit)

theorem visit_replacer (e : Expr) :
    (replacer old new enter arrive).visit e =
      callEach (fun x => do enter x; arrive x) (e.placesDown.filterMap e.at?)
        (e.replaceConstants old new) := by
  have hleaf : LeafChange.leaf ⟨id, Value.replace old new⟩ = replaceConstant old new := by
    funext x
    cases x <;> rfl
  have hchanged : LeafChange.apply ⟨id, Value.replace old new⟩ e = e.replaceConstants old new := by
    rw [LeafChange.apply, hleaf, replaceConstants]
  rw [filterMap_placesDown, ← hchanged]
  exact LeafChange.visit_caller ⟨id, old.replace new⟩ enter arrive e

theorem rebuildM_replaceConstant (e : Expr) :
    e.rebuildM (fun x => do finish x; return x.replaceConstant old new) =
      callEach finish
        (e.placesUp.filterMap fun p => (e.at? p).map (mapChildren (replaceConstants old new)))
        (e.replaceConstants old new) := by
  rw [← List.map_filterMap, filterMap_placesUp]
  exact rebuildM_callEach finish (replaceConstant old new) e

/--
A walk from the root and a walk from the leaves make the same expression of `e`, which differs from
it in those constants and nowhere else. Both call on what stands at each place of `e` once, from left
to right: the one on every node in front of what is below it, the other behind, when the parts of the
node have been replaced.
-/
theorem walks_agree (e : Expr) :
    (∀ p, ((e.replaceConstants old new).at? p).map head =
      (e.at? p).map fun x => (x.replaceConstant old new).head) ∧
    e.Lists Above e.placesDown ∧ e.Lists Beneath e.placesUp ∧
    (replacer old new enter arrive).visit e =
      callEach (fun x => do enter x; arrive x) (e.placesDown.filterMap e.at?)
        (e.replaceConstants old new) ∧
    e.rebuildM (fun x => do finish x; return x.replaceConstant old new) =
      callEach finish
        (e.placesUp.filterMap fun p => (e.at? p).map (mapChildren (replaceConstants old new)))
        (e.replaceConstants old new) :=
  ⟨at?_replaceConstants old new e, lists_placesDown e, lists_placesUp e,
    visit_replacer old new enter arrive e, rebuildM_replaceConstant old new finish e⟩

end Walks

/-- `CASE WHEN x > 0 THEN 0 ELSE 'low' END` -/
def guardedZero : Expr :=
  case [⟨cmp .gt (col "x" .i64) (val (.i64 0)), val (.i64 0)⟩] (some (val (.string "low"))) none

/-- Written down as they are called on, the nodes on the way down are old, those on the way up new. -/
theorem walks_agree_guardedZero :
    let note : Expr → StateM (List Expr) Unit := fun x => modify (· ++ [x])
    let one := val (.i64 1)
    let test := cmp .gt (col "x" .i64) one
    let guardedOne := case [⟨test, one⟩] (some (val (.string "low"))) none
    LawfulMonad (StateM (List Expr)) ∧
      ((replacer (.i64 0) (.i64 1) (fun _ => pure ()) note).visit guardedZero).run [] =
        (guardedOne, [guardedZero, cmp .gt (col "x" .i64) (val (.i64 0)), col "x" .i64,
          val (.i64 0), val (.i64 0), val (.string "low")]) ∧
      (guardedZero.rebuildM (fun x => do
          note x
          return x.replaceConstant (.i64 0) (.i64 1))).run [] =
        (guardedOne, [col "x" .i64, val (.i64 0), test, val (.i64 0), val (.string "low"),
          guardedOne]) := by
  intro note one test guardedOne
  obtain ⟨-, -, -, hdown, hup⟩ :=
    walks_agree (.i64 0) (.i64 1) (fun _ => pure ()) note note guardedZero
  exact ⟨inferInstance, by rw [hdown]; rfl, by rw [hup]; rfl⟩

end Expr

end QueryExpr
