import QueryExpr.Proofs.Subterms
import QueryExpr.Sql.Statement

/-!
# Slots

A statement that binds its constants has a placeholder for every argument and for every constant but
null. These slots of an expression are what its pieces hold besides text, from left to right, and
their numbers depend on nothing else.
-/

namespace QueryExpr

inductive Slot where
  | argument (position : Nat)
  | constant (value : Value)
deriving DecidableEq, Repr

namespace Slot

def constant? : Slot → Option Value
  | constant v => some v
  | argument _ => none

/-- How many constants there are in front of a slot. -/
def constantsBefore (slots : List Slot) (i : Nat) : Nat :=
  ((slots.take i).filterMap constant?).length

/-- Position `n` has the number `n + 1`, and constants are numbered on from `before`. -/
def numbers (before : Nat) : List Slot → List Nat
  | [] => []
  | argument position :: slots => (position + 1) :: numbers before slots
  | constant _ :: slots => (before + 1) :: numbers (before + 1) slots

theorem length_numbers (before : Nat) (slots : List Slot) :
    (numbers before slots).length = slots.length := by
  induction slots generalizing before with
  | nil => rfl
  | cons a slots ih => cases a <;> simp [numbers, ih]

theorem numbers_append (before : Nat) (as bs : List Slot) :
    numbers before (as ++ bs) =
      numbers before as ++ numbers (before + (as.filterMap constant?).length) bs := by
  induction as generalizing before with
  | nil => rfl
  | cons a as ih =>
      cases a with
      | argument position => exact congrArg ((position + 1) :: ·) (ih before)
      | constant v =>
          have hcount : before + ((constant v :: as).filterMap constant?).length =
              before + 1 + (as.filterMap constant?).length := by
            change before + ((as.filterMap constant?).length + 1) = _
            omega
          rw [hcount]
          exact congrArg ((before + 1) :: ·) (ih (before + 1))

section Lookup

variable {slots : List Slot} {i : Nat}

theorem getElem?_numbers_argument (before : Nat) {n : Nat} (h : slots[i]? = some (.argument n)) :
    (numbers before slots)[i]? = some (n + 1) := by
  induction slots generalizing before i with
  | nil => simp at h
  | cons a slots ih =>
      cases i with
      | zero =>
          cases h
          rfl
      | succ i => cases a <;> exact ih _ h

theorem getElem?_numbers_constant (before : Nat) {v : Value} (h : slots[i]? = some (.constant v)) :
    (numbers before slots)[i]? = some (before + (constantsBefore slots i + 1)) := by
  induction slots generalizing before i with
  | nil => simp at h
  | cons a slots ih =>
      cases i with
      | zero =>
          cases h
          rfl
      | succ i =>
          cases a with
          | argument position => exact ih before h
          | constant w =>
              have hcount : constantsBefore (constant w :: slots) (i + 1) =
                  constantsBefore slots i + 1 := rfl
              rw [hcount, show before + (constantsBefore slots i + 1 + 1) =
                before + 1 + (constantsBefore slots i + 1) by omega]
              exact ih (before + 1) h

theorem getElem?_constants {v : Value} (h : slots[i]? = some (.constant v)) :
    (slots.filterMap constant?)[constantsBefore slots i]? = some v := by
  have hsplit : slots = slots.take i ++ constant v :: slots.drop (i + 1) := by
    obtain ⟨hi, hget⟩ := List.getElem?_eq_some_iff.mp h
    rw [← hget, List.getElem_cons_drop, List.take_append_drop]
  have hconstants : slots.filterMap constant? =
      (slots.take i).filterMap constant? ++ v :: (slots.drop (i + 1)).filterMap constant? :=
    (congrArg (List.filterMap constant?) hsplit).trans List.filterMap_append
  rw [hconstants, constantsBefore, List.getElem?_append_right (Nat.le_refl _), Nat.sub_self]
  rfl

theorem exists_constant {k : Nat} {v : Value} (h : (slots.filterMap constant?)[k]? = some v) :
    ∃ i : Nat, slots[i]? = some (.constant v) ∧ constantsBefore slots i = k := by
  induction slots generalizing k with
  | nil => cases h
  | cons a slots ih =>
      cases a with
      | argument position =>
          obtain ⟨i, hi, hbefore⟩ := ih h
          exact ⟨i + 1, hi, hbefore⟩
      | constant w =>
          cases k with
          | zero =>
              cases h
              exact ⟨0, rfl, rfl⟩
          | succ k =>
              obtain ⟨i, hi, hbefore⟩ := ih h
              exact ⟨i + 1, hi, congrArg Nat.succ hbefore⟩

private theorem constantsBefore_lt {v : Value} {j : Nat} (h : slots[i]? = some (.constant v))
    (hij : i < j) : constantsBefore slots i < constantsBefore slots j := by
  have hnext : constantsBefore slots (i + 1) = constantsBefore slots i + 1 := by
    rw [constantsBefore, List.take_add_one, h, List.filterMap_append, List.length_append]
    rfl
  have hmono : constantsBefore slots (i + 1) ≤ constantsBefore slots j := by
    have htake : slots.take (i + 1) <+: slots.take j := List.take_prefix_take_left hij
    exact (htake.sublist.filterMap constant?).length_le
  omega

theorem getElem?_numbers_ne {before : Nat} (hbefore : ∀ n, argument n ∈ slots → n < before)
    {v : Value} (h : slots[i]? = some (.constant v)) {j : Nat} (hij : j ≠ i) :
    (numbers before slots)[j]? ≠ (numbers before slots)[i]? := by
  rw [getElem?_numbers_constant before h]
  cases hj : slots[j]? with
  | none =>
      have hlength : (numbers before slots).length ≤ j := by
        rw [length_numbers]
        exact List.getElem?_eq_none_iff.mp hj
      rw [List.getElem?_eq_none_iff.mpr hlength]
      simp
  | some a =>
      cases a with
      | argument n =>
          rw [getElem?_numbers_argument before hj]
          have := hbefore n (List.mem_of_getElem? hj)
          simp only [ne_eq, Option.some.injEq]
          omega
      | constant w =>
          rw [getElem?_numbers_constant before hj]
          simp only [ne_eq, Option.some.injEq]
          rcases Nat.lt_or_gt_of_ne hij with hlt | hgt
          · have := constantsBefore_lt hj hlt
            omega
          · have := constantsBefore_lt h hgt
            omega

end Lookup

end Slot

def Piece.slot? : Piece → Option Slot
  | .text _ => none
  | .argument position => some (.argument position)
  | .bound v => some (.constant v)

theorem Piece.filterMap_constant? (ps : List Piece) :
    (ps.filterMap slot?).filterMap Slot.constant? = ps.filterMap bound? := by
  rw [List.filterMap_filterMap]
  congr 1
  funext p
  cases p <;> rfl

namespace Expr

def slot? : Expr → Option Slot
  | arg position => some (.argument position)
  | val v => if v.isNull then none else some (.constant v)
  | _ => none

/-- The arguments and the constants other than null, from left to right. -/
def slots (e : Expr) : List Slot := e.subterms.filterMap slot?

theorem slots_eq (e : Expr) : e.slots = e.slot?.toList ++ e.children.flatMap slots := by
  rw [slots, subterms_eq, List.filterMap_cons, List.filterMap_flatMap]
  cases e.slot? <;> rfl

theorem argument_mem_slots {e : Expr} {n : Nat} : .argument n ∈ e.slots ↔ arg n ∈ e.subterms := by
  rw [slots, List.mem_filterMap]
  constructor
  · rintro ⟨x, hx, hslot⟩
    cases x with
    | arg position =>
        cases hslot
        exact hx
    | val v =>
        simp only [slot?] at hslot
        split at hslot <;> cases hslot
    | _ => cases hslot
  · intro h
    exact ⟨arg n, h, rfl⟩

section ArgumentCount

private theorem foldr_max_le_iff {ns : List Nat} {n : Nat} :
    ns.foldr max 0 ≤ n ↔ ∀ m ∈ ns, m ≤ n := by
  induction ns with
  | nil => simp
  | cons m ns ih => simp only [List.foldr_cons, Nat.max_le, ih, List.forall_mem_cons]

theorem argumentCount_le_iff {e : Expr} {n : Nat} :
    e.argumentCount ≤ n ↔ ∀ m, .argument m ∈ e.slots → m < n := by
  induction e using induct with
  | node e ih =>
      rw [argumentCount_eq, slots_eq]
      cases e with
      | arg position =>
          change position + 1 ≤ n ↔ _
          constructor
          · intro h m hm
            have hposition : m = position := by simpa [slot?, children] using hm
            rwa [hposition]
          · intro h
            exact h position List.mem_cons_self
      | val v =>
          have hnone : ∀ m, .argument m ∉ (val v).slot?.toList := by
            intro m
            simp only [slot?]
            split <;> simp
          simp [children, hnone]
      | _ =>
          simp only [slot?, Option.toList_none, List.nil_append, foldr_max_le_iff, List.mem_map,
            List.mem_flatMap, forall_exists_index, and_imp, forall_apply_eq_imp_iff₂]
          constructor
          · intro h m x hx
            exact (ih x hx).mp (h x hx) m
          · intro h x hx
            exact (ih x hx).mpr fun m => h m x hx

theorem lt_argumentCount {e : Expr} {n : Nat} (h : .argument n ∈ e.slots) : n < e.argumentCount :=
  argumentCount_le_iff.mp (Nat.le_refl _) n h

theorem argumentCount_congr {e e' : Expr}
    (h : ∀ n, .argument n ∈ e.slots ↔ .argument n ∈ e'.slots) :
    e.argumentCount = e'.argumentCount := by
  apply Nat.le_antisymm
  · exact argumentCount_le_iff.mpr fun n hn => lt_argumentCount ((h n).mp hn)
  · exact argumentCount_le_iff.mpr fun n hn => lt_argumentCount ((h n).mpr hn)

/-- One more than the highest argument position, zero if there is none. -/
theorem argumentCount_cases (e : Expr) :
    (e.argumentCount = 0 ∧ ∀ n, .argument n ∉ e.slots) ∨
      ∃ n, e.argumentCount = n + 1 ∧ .argument n ∈ e.slots ∧ ∀ m, .argument m ∈ e.slots → m ≤ n := by
  cases hcount : e.argumentCount with
  | zero =>
      left
      refine ⟨rfl, fun n hn => ?_⟩
      have := lt_argumentCount hn
      omega
  | succ n =>
      right
      have hle : ∀ m, .argument m ∈ e.slots → m ≤ n := by
        intro m hm
        have := lt_argumentCount hm
        omega
      refine ⟨n, rfl, Classical.byContradiction fun hn => ?_, hle⟩
      have hless : e.argumentCount ≤ n := argumentCount_le_iff.mpr fun m hm =>
        Nat.lt_of_le_of_ne (hle m hm) fun heq => hn (heq ▸ hm)
      omega

end ArgumentCount

section Pieces

variable (dialect : Dialect)

theorem operandPieces_eq (xs : List Expr) :
    operandPieces dialect xs = xs.map fun x => x.asOperand (x.pieces dialect) := by
  induction xs with
  | nil => rfl
  | cons x xs ih => simp only [operandPieces, List.map_cons, ih]

theorem whenPieces_eq (ws : List (When Expr)) :
    whenPieces dialect ws = ws.flatMap fun w =>
      .text " WHEN " :: w.condition.pieces dialect ++ .text " THEN " :: w.result.pieces dialect := by
  induction ws with
  | nil => rfl
  | cons w ws ih => simp only [whenPieces, List.flatMap_cons, ih, List.append_assoc]

theorem elsePieces_eq (otherwise : Option Expr) :
    elsePieces dialect otherwise =
      otherwise.toList.flatMap fun x => .text " ELSE " :: x.pieces dialect := by
  cases otherwise <;> simp [elsePieces]

/-- The piece that stands for the node itself, if that is not text. -/
def ownPieces : Expr → List Piece
  | val v => [dialect.constant v]
  | arg position => [.argument position]
  | _ => []

variable {β : Type} {f : Piece → Option β}

private theorem filterMap_intercalate (hf : ∀ s, f (.text s) = none) (s : String)
    (l : List (List Piece)) :
    ([Piece.text s].intercalate l).filterMap f = l.flatMap (List.filterMap f) := by
  induction l with
  | nil => rfl
  | cons ps l ih =>
      cases l with
      | nil => simp [List.intercalate_singleton]
      | cons qs l => simp [List.intercalate_cons_cons, hf, ih]

private theorem filterMap_asOperand (hf : ∀ s, f (.text s) = none) (x : Expr) (ps : List Piece) :
    (x.asOperand ps).filterMap f = ps.filterMap f := by
  unfold asOperand
  split <;> simp [hf]

/-- What the pieces of a node hold besides text comes from the node itself or from its parts. -/
theorem filterMap_pieces (hf : ∀ s, f (.text s) = none) (e : Expr) :
    (e.pieces dialect).filterMap f = (e.ownPieces dialect).filterMap f ++
      e.children.flatMap fun x => (x.pieces dialect).filterMap f := by
  cases e with
  | val | arg => simp [pieces, ownPieces, children]
  | col name ty => simp [pieces, ownPieces, children, hf]
  | and xs | or xs =>
      simp only [pieces, operandPieces_eq, filterMap_intercalate hf, List.flatMap_map,
        filterMap_asOperand hf]
      rfl
  | cmp op l r => simp [pieces, ownPieces, children, filterMap_asOperand hf, hf]
  | case whens otherwise ty =>
      simp [pieces, whenPieces_eq, elsePieces_eq, ownPieces, children, whenParts, hf,
        List.filterMap_flatMap, List.flatMap_assoc]
  | cast x ty =>
      rw [pieces]
      split <;> simp [ownPieces, children, hf]
  | isNull negated x | not x => simp [pieces, ownPieces, children, filterMap_asOperand hf, hf]

theorem slots_pieces {dialect : Dialect} (hdialect : dialect ≠ .canonical) (e : Expr) :
    (e.pieces dialect).filterMap Piece.slot? = e.slots := by
  induction e using induct with
  | node e ih =>
      have hown : (e.ownPieces dialect).filterMap Piece.slot? = e.slot?.toList := by
        cases e with
        | val v => cases v <;> cases dialect <;> first | rfl | exact absurd rfl hdialect
        | _ => rfl
      have hparts : e.children.flatMap (fun x => (x.pieces dialect).filterMap Piece.slot?) =
          e.children.flatMap slots := by
        rw [List.flatMap_def, List.map_congr_left ih, ← List.flatMap_def]
      rw [filterMap_pieces dialect (fun _ => rfl), slots_eq, hown, hparts]

theorem bound_pieces_canonical (e : Expr) :
    (e.pieces .canonical).filterMap Piece.bound? = [] := by
  induction e using induct with
  | node e ih =>
      have hown : (e.ownPieces .canonical).filterMap Piece.bound? = [] := by
        cases e with
        | val v => cases v <;> rfl
        | _ => rfl
      have hparts : e.children.flatMap (fun x => (x.pieces .canonical).filterMap Piece.bound?) =
          [] := List.flatMap_eq_nil_iff.mpr ih
      rw [filterMap_pieces .canonical (fun _ => rfl), hown, hparts]
      rfl

end Pieces

end Expr

end QueryExpr
