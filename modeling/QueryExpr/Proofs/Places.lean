import QueryExpr.Proofs.Walks

/-!
# Places in an expression

A place tells the way from the root: at every node on it, which part comes next. Listed from left to
right, with every node in front of what is below it or behind it, the places of an expression hold
its nodes in the two orders in which walks call on them.
-/

namespace QueryExpr

abbrev Place := List Nat

namespace Place

/-- The first place is on the way to the other. -/
def Above (p q : Place) : Prop := p <+: q ∧ p ≠ q

/-- The other place is on the way to the first. -/
def Beneath (p q : Place) : Prop := Above q p

/-- Where the ways part, the first place is to the left of the other. -/
def LeftOf (p q : Place) : Prop :=
  ∃ (way : Place) (i j : Nat) (p' q' : Place),
    i < j ∧ p = way ++ i :: p' ∧ q = way ++ j :: q'

/-- Left to right, and as `nested` says where one place is above the other. -/
def Before (nested : Place → Place → Prop) (p q : Place) : Prop := nested p q ∨ LeftOf p q

/-- The places below a node from those in each of its parts; the parts are counted from `i` on. -/
def under (i : Nat) : List (List Place) → List Place
  | [] => []
  | places :: parts => places.map (i :: ·) ++ under (i + 1) parts

theorem above_irrefl (p : Place) : ¬ Above p p := fun h => h.2 rfl

theorem Above.cons {p q : Place} (h : Above p q) (i : Nat) : Above (i :: p) (i :: q) :=
  ⟨List.cons_prefix_cons.mpr ⟨rfl, h.1⟩, fun heq => h.2 (List.cons.inj heq).2⟩

theorem leftOf_irrefl (p : Place) : ¬ LeftOf p p := by
  rintro ⟨way, i, j, p', q', hij, hp, hq⟩
  have htail := List.append_cancel_left (hp.symm.trans hq)
  exact Nat.ne_of_lt hij (List.cons.inj htail).1

theorem LeftOf.cons {p q : Place} (h : LeftOf p q) (i : Nat) : LeftOf (i :: p) (i :: q) := by
  obtain ⟨way, j, k, p', q', hjk, rfl, rfl⟩ := h
  exact ⟨i :: way, j, k, p', q', hjk, rfl, rfl⟩

theorem leftOf_of_lt {i j : Nat} (h : i < j) (p q : Place) : LeftOf (i :: p) (j :: q) :=
  ⟨[], i, j, p, q, h, rfl, rfl⟩

theorem mem_under {i : Nat} {parts : List (List Place)} {p : Place} :
    p ∈ under i parts ↔ ∃ k q, p = (i + k) :: q ∧ ∃ places ∈ parts[k]?, q ∈ places := by
  induction parts generalizing i with
  | nil => simp [under]
  | cons places parts ih =>
      rw [under, List.mem_append, List.mem_map, ih]
      constructor
      · rintro (⟨q, hq, rfl⟩ | ⟨k, q, rfl, hq⟩)
        · exact ⟨0, q, rfl, places, rfl, hq⟩
        · exact ⟨k + 1, q, by rw [Nat.add_right_comm, Nat.add_assoc], hq⟩
      · rintro ⟨k, q, rfl, hq⟩
        cases k with
        | zero =>
            obtain ⟨_, hhead, hq⟩ := hq
            cases hhead
            exact Or.inl ⟨q, hq, rfl⟩
        | succ k => exact Or.inr ⟨k, q, by rw [Nat.add_right_comm, Nat.add_assoc], hq⟩

theorem pairwise_under {nested : Place → Place → Prop}
    (hcons : ∀ {p q}, nested p q → ∀ i, nested (i :: p) (i :: q)) (i : Nat)
    {parts : List (List Place)} (h : ∀ places ∈ parts, places.Pairwise (Before nested)) :
    (under i parts).Pairwise (Before nested) := by
  induction parts generalizing i with
  | nil => exact .nil
  | cons places parts ih =>
      obtain ⟨hplaces, hparts⟩ := List.forall_mem_cons.mp h
      refine List.pairwise_append.mpr ⟨?_, ih (i + 1) hparts, ?_⟩
      · rw [List.pairwise_map]
        exact hplaces.imp fun hpq => hpq.imp (fun h => hcons h i) fun h => h.cons i
      · intro p hp q hq
        obtain ⟨p', -, rfl⟩ := List.mem_map.mp hp
        obtain ⟨k, q', rfl, -⟩ := mem_under.mp hq
        exact Or.inr (leftOf_of_lt (by omega) p' q')

/-- What is found below a node is found in its parts, from left to right. -/
theorem filterMap_under {α : Type} {places : Expr → List Place} {find : Expr → Place → Option α}
    {g : Place → Option α} {xs : List Expr} (i : Nat)
    (h : ∀ k x q, xs[k]? = some x → g ((i + k) :: q) = find x q) :
    (under i (xs.map places)).filterMap g = xs.flatMap fun x => (places x).filterMap (find x) := by
  induction xs generalizing i with
  | nil => rfl
  | cons x xs ih =>
      have hhead : (fun q => g (i :: q)) = find x := funext fun q => h 0 x q rfl
      have htail := ih (i + 1) fun k y q hy => by
        rw [Nat.add_right_comm, Nat.add_assoc]
        exact h (k + 1) y q hy
      rw [List.map_cons, under, List.filterMap_append, List.filterMap_map, htail,
        List.flatMap_cons, ← hhead]
      rfl

end Place

namespace Expr

open Place

/-- The node at a place, if the place is in the expression. -/
def at? : Expr → Place → Option Expr
  | e, [] => some e
  | e, i :: p => e.children[i]?.bind fun x => x.at? p

/-- The list has every place of the expression once, in this order. -/
structure Lists (nested : Place → Place → Prop) (e : Expr) (places : List Place) : Prop where
  mem_iff : ∀ p, p ∈ places ↔ (e.at? p).isSome = true
  nodup : places.Nodup
  sorted : places.Pairwise (Before nested)

/-- The places of an expression: those below the root, and the root where `arrange` puts it. -/
def places (arrange : List Place → List Place) : Expr → List Place :=
  fold fun _ parts => arrange (under 0 parts)

theorem places_eq (arrange : List Place → List Place) (e : Expr) :
    e.places arrange = arrange (under 0 (e.children.map (places arrange))) := by
  rw [places, fold_eq]

section Arrange

variable {nested : Place → Place → Prop} {arrange : List Place → List Place}

private theorem mem_places (hmem : ∀ l p, p ∈ arrange l ↔ p = [] ∨ p ∈ l) (e : Expr) (p : Place) :
    p ∈ e.places arrange ↔ (e.at? p).isSome = true := by
  induction e using induct generalizing p with
  | node e ih =>
      rw [places_eq, hmem, mem_under]
      cases p with
      | nil => exact ⟨fun _ => rfl, fun _ => Or.inl rfl⟩
      | cons i p =>
          simp only [reduceCtorEq, false_or, List.cons.injEq, Nat.zero_add, List.getElem?_map, at?]
          cases hx : e.children[i]? with
          | none =>
              constructor
              · rintro ⟨k, q, ⟨rfl, rfl⟩, places, hplaces, -⟩
                rw [hx] at hplaces
                cases hplaces
              · nofun
          | some x =>
              rw [Option.bind_some, ← ih x (List.mem_of_getElem? hx)]
              constructor
              · rintro ⟨k, q, ⟨rfl, rfl⟩, places, hplaces, hq⟩
                rw [hx] at hplaces
                cases hplaces
                exact hq
              · exact fun hp => ⟨i, p, ⟨rfl, rfl⟩, x.places arrange, by rw [hx]; rfl, hp⟩

private theorem pairwise_places (hcons : ∀ {p q}, nested p q → ∀ i, nested (i :: p) (i :: q))
    (hroot : ∀ l, l.Pairwise (Before nested) → [] ∉ l → (arrange l).Pairwise (Before nested))
    (e : Expr) : (e.places arrange).Pairwise (Before nested) := by
  induction e using induct with
  | node e ih =>
      rw [places_eq]
      apply hroot
      · apply pairwise_under hcons
        exact List.forall_mem_map.mpr ih
      · intro h
        obtain ⟨k, q, hnil, -⟩ := mem_under.mp h
        cases hnil

private theorem lists_places (hmem : ∀ l p, p ∈ arrange l ↔ p = [] ∨ p ∈ l)
    (hirrefl : ∀ p, ¬ nested p p) (hcons : ∀ {p q}, nested p q → ∀ i, nested (i :: p) (i :: q))
    (hroot : ∀ l, l.Pairwise (Before nested) → [] ∉ l → (arrange l).Pairwise (Before nested))
    (e : Expr) : e.Lists nested (e.places arrange) where
  mem_iff := mem_places hmem e
  nodup := (pairwise_places hcons hroot e).imp fun hpq heq =>
    hpq.elim (heq ▸ hirrefl _) (heq ▸ leftOf_irrefl _)
  sorted := pairwise_places hcons hroot e

end Arrange

/-- The places from the root: every node in front of what is below it. -/
def placesDown : Expr → List Place := places ([] :: ·)

/-- The places from the leaves: every node behind what is below it. -/
def placesUp : Expr → List Place := places (· ++ [[]])

theorem lists_placesDown (e : Expr) : e.Lists Above e.placesDown := by
  apply lists_places (fun _ _ => List.mem_cons) above_irrefl fun h => h.cons
  intro l hl hnil
  refine List.pairwise_cons.mpr ⟨fun p hp => ?_, hl⟩
  exact Or.inl ⟨List.nil_prefix, fun heq => hnil (heq ▸ hp)⟩

theorem lists_placesUp (e : Expr) : e.Lists Beneath e.placesUp := by
  have hmem : ∀ (l : List Place) (p : Place), p ∈ l ++ [[]] ↔ p = [] ∨ p ∈ l := by
    intro l p
    rw [List.mem_append, List.mem_singleton, or_comm]
  have hcons : ∀ {p q : Place}, Beneath p q → ∀ i, Beneath (i :: p) (i :: q) := Above.cons
  have hirrefl : ∀ p : Place, ¬ Beneath p p := above_irrefl
  apply lists_places hmem hirrefl hcons
  intro l hl hnil
  refine List.pairwise_append.mpr ⟨hl, List.pairwise_singleton _ _, fun p hp q hq => ?_⟩
  rw [List.mem_singleton.mp hq]
  exact Or.inl ⟨List.nil_prefix, fun heq => hnil (heq ▸ hp)⟩

private theorem filterMap_at?_under {places : Expr → List Place} {order : Expr → List Expr}
    {e : Expr} (h : ∀ x ∈ e.children, (places x).filterMap x.at? = order x) :
    (under 0 (e.children.map places)).filterMap e.at? = e.children.flatMap order := by
  have hpart : ∀ k x q, e.children[k]? = some x → e.at? ((0 + k) :: q) = x.at? q := by
    intro k x q hx
    rw [Nat.zero_add, at?, hx]
    rfl
  rw [filterMap_under 0 hpart, List.flatMap_def, List.map_congr_left h, List.flatMap_def]

theorem filterMap_placesDown (e : Expr) : e.placesDown.filterMap e.at? = e.subterms := by
  induction e using induct with
  | node e ih =>
      rw [placesDown, places_eq, subterms_eq, ← filterMap_at?_under ih]
      rfl

theorem filterMap_placesUp (e : Expr) : e.placesUp.filterMap e.at? = e.finished := by
  induction e using induct with
  | node e ih =>
      rw [placesUp, places_eq, finished_eq, ← filterMap_at?_under ih, List.filterMap_append]
      rfl

end Expr

end QueryExpr
