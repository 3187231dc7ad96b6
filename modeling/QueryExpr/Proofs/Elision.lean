import Mathlib.Algebra.GroupWithZero.Nat
import QueryExpr.Proofs.Redaction

/-!
# Elided casts

A cast to a type that says nothing is not written. An operand is put in parentheses by what it is
and not by what is written for it, so a cast that is elided takes the parentheses of a compound
operand away. Taking such casts out of the tree changes nothing of what is bound, and the text only
by the parentheses that come back.
-/

namespace QueryExpr

namespace Piece

def textLength : Piece → Nat
  | text s => s.length
  | _ => 0

/-- The characters of the fixed text. -/
def textLengths (ps : List Piece) : Nat := (ps.map textLength).sum

@[simp] theorem textLengths_nil : textLengths [] = 0 := rfl

@[simp] theorem textLengths_cons (p : Piece) (ps : List Piece) :
    textLengths (p :: ps) = p.textLength + textLengths ps := by
  simp [textLengths]

@[simp] theorem textLengths_append (ps qs : List Piece) :
    textLengths (ps ++ qs) = textLengths ps + textLengths qs := by
  simp [textLengths]

theorem length_join_number (dialect : Dialect) (before : Nat) (ps : List Piece) :
    (String.join ((number before ps).map dialect.writeToken)).length = textLengths ps +
      ((Slot.numbers before (ps.filterMap slot?)).map fun n =>
        (dialect.placeholder n).length).sum := by
  induction ps generalizing before with
  | nil => rfl
  | cons p ps ih =>
      cases p with
      | text s =>
          simp only [number, List.map_cons, String.join_cons, String.length_append, ih,
            textLengths_cons, List.filterMap_cons, slot?, Dialect.writeToken, textLength]
          omega
      | argument position | bound v =>
          simp only [number, List.map_cons, String.join_cons, String.length_append, ih,
            textLengths_cons, List.filterMap_cons, slot?, Dialect.writeToken, textLength,
            Slot.numbers, List.sum_cons]
          omega

end Piece

namespace Expr

/-- Drops a cast that is not written. -/
def dropCast : Expr → Expr
  | cast x ty => if ty.isIndeterminate then x else cast x ty
  | e => e

/-- The expression without the casts that are not written. -/
def elided (e : Expr) : Expr := e.rebuild dropCast

/-- A cast that is not written around a compound expression. -/
def isExposed : Expr → Bool
  | cast x ty => ty.isIndeterminate && (x.needsParentheses || isExposed x)
  | _ => false

/-- The operands, of any node, that lose their parentheses. -/
def exposed (e : Expr) : List Expr := (e.subterms.flatMap operands).filter isExposed

theorem elided_eq (e : Expr) : e.elided = (e.mapChildren elided).dropCast := rebuild_eq dropCast e

theorem elided_cast (x : Expr) (ty : Ty) :
    (cast x ty).elided = if ty.isIndeterminate then x.elided else cast x.elided ty :=
  elided_eq _

/-- A node that is not written gives way to its operand; any other node stays. -/
theorem elided_cases (e : Expr) :
    (∃ x ty, e = cast x ty ∧ ty.isIndeterminate = true ∧ e.elided = x.elided) ∨
      e.elided = e.mapChildren elided := by
  cases e with
  | cast x ty =>
      rw [elided_cast]
      cases hty : ty.isIndeterminate with
      | true => exact Or.inl ⟨x, ty, rfl, hty, if_pos rfl⟩
      | false => exact Or.inr rfl
  | _ => exact Or.inr (elided_eq _)

theorem needsParentheses_elided (e : Expr) :
    e.elided.needsParentheses = (e.needsParentheses || e.isExposed) := by
  induction e using induct with
  | node e ih =>
      cases e with
      | cast x ty =>
          rw [elided_cast, isExposed]
          cases hty : ty.isIndeterminate with
          | false => rfl
          | true =>
              rw [if_pos rfl, ih x (List.mem_singleton_self x)]
              rfl
      | _ =>
          rw [elided_eq]
          rfl

theorem length_exposed (e : Expr) :
    e.exposed.length =
      (e.operands.filter isExposed).length + (e.children.map fun x => x.exposed.length).sum := by
  rw [exposed, subterms_eq, List.flatMap_cons, List.filter_append, List.length_append,
    List.flatMap_assoc, List.filter_flatMap, List.length_flatMap]
  rfl

section Bound

variable {β : Type} {f : Piece → Option β}

theorem filterMap_pieces_elided (dialect : Dialect) (hf : ∀ s, f (.text s) = none) (e : Expr) :
    (e.elided.pieces dialect).filterMap f = (e.pieces dialect).filterMap f := by
  induction e using induct with
  | node e ih =>
      rcases elided_cases e with ⟨x, ty, rfl, hty, hdropped⟩ | hkept
      · rw [hdropped, ih x (List.mem_singleton_self x), pieces, if_pos hty]
      · have hown : (e.mapChildren elided).ownPieces dialect = e.ownPieces dialect := by
          cases e <;> rfl
        have hparts : e.children.map (fun x => (x.elided.pieces dialect).filterMap f) =
            e.children.map fun x => (x.pieces dialect).filterMap f := List.map_congr_left ih
        rw [hkept, filterMap_pieces dialect hf, filterMap_pieces dialect hf, hown,
          children_mapChildren, List.flatMap_map, List.flatMap_def, hparts, ← List.flatMap_def]

theorem slots_elided (e : Expr) : e.elided.slots = e.slots := by
  have hdialect : Dialect.sqlite ≠ .canonical := by decide
  rw [← slots_pieces hdialect, ← slots_pieces hdialect,
    filterMap_pieces_elided .sqlite (fun _ => rfl)]

end Bound

section Parentheses

variable {dialect : Dialect}

/-- Eliding the casts adds two characters for every operand that loses its parentheses. -/
private def Regained (dialect : Dialect) (x : Expr) : Prop :=
  Piece.textLengths (x.elided.pieces dialect) =
    Piece.textLengths (x.pieces dialect) + 2 * x.exposed.length

private theorem textLengths_asOperand {x : Expr} (h : Regained dialect x) :
    Piece.textLengths (x.elided.asOperand (x.elided.pieces dialect)) =
      Piece.textLengths (x.asOperand (x.pieces dialect)) +
        2 * (([x].filter isExposed).length + x.exposed.length) := by
  have hone : x.isExposed = true → x.needsParentheses = false := by
    cases x with
    | cast => exact fun _ => rfl
    | _ => exact nofun
  have hparentheses : Piece.textLength (.text "(") + Piece.textLength (.text ")") = 2 := rfl
  unfold asOperand
  rw [needsParentheses_elided]
  cases hneeds : x.needsParentheses with
  | true =>
      have hexposed : x.isExposed = false :=
        Bool.eq_false_iff.mpr fun hx => Bool.noConfusion ((hone hx).symm.trans hneeds)
      simp only [hexposed, Bool.or_false, if_true, List.filter_cons, List.filter_nil,
        Bool.false_eq_true, if_false, Piece.textLengths_append, Piece.textLengths_cons,
        Piece.textLengths_nil, List.cons_append, List.length_nil]
      rw [h]
      omega
  | false =>
      cases hexposed : x.isExposed with
      | true =>
          simp only [Bool.or_true, if_true, List.filter_cons, hexposed, List.filter_nil,
            Bool.false_eq_true, if_false, Piece.textLengths_append, Piece.textLengths_cons,
            Piece.textLengths_nil, List.cons_append, List.length_cons, List.length_nil]
          rw [h]
          omega
      | false =>
          simp only [Bool.or_false, Bool.false_eq_true, if_false, List.filter_cons, hexposed,
            List.filter_nil, List.length_nil]
          rw [h]
          omega

private theorem textLengths_operands (s : String) {xs : List Expr}
    (h : ∀ x ∈ xs, Regained dialect x) :
    Piece.textLengths ([Piece.text s].intercalate (operandPieces dialect (xs.map elided))) =
      Piece.textLengths ([Piece.text s].intercalate (operandPieces dialect xs)) +
        2 * ((xs.filter isExposed).length + (xs.map fun x => x.exposed.length).sum) := by
  induction xs with
  | nil => rfl
  | cons x xs ih =>
      obtain ⟨hx, hxs⟩ := List.forall_mem_cons.mp h
      have hfirst := textLengths_asOperand hx
      have hrest := ih hxs
      have hfilter : ((x :: xs).filter isExposed).length =
          ([x].filter isExposed).length + (xs.filter isExposed).length := by
        rw [← List.singleton_append, List.filter_append, List.length_append]
      rw [hfilter, List.map_cons, List.map_cons, List.sum_cons]
      cases xs with
      | nil =>
          simp only [operandPieces, List.map_nil, List.intercalate_singleton, List.filter_nil,
            List.length_nil, List.sum_nil]
          omega
      | cons y ys =>
          simp only [operandPieces, List.map_cons, List.intercalate_cons_cons,
            Piece.textLengths_append] at hrest ⊢
          omega

private theorem textLengths_whens {whens : List (When Expr)}
    (h : ∀ x ∈ whenParts whens, Regained dialect x) :
    Piece.textLengths (whenPieces dialect (whens.map (When.map elided))) =
      Piece.textLengths (whenPieces dialect whens) +
        2 * ((whenParts whens).map fun x => x.exposed.length).sum := by
  induction whens with
  | nil => rfl
  | cons w ws ih =>
      have hparts : whenParts (w :: ws) = w.condition :: w.result :: whenParts ws := rfl
      rw [hparts] at h ⊢
      obtain ⟨hc, hcs⟩ := List.forall_mem_cons.mp h
      obtain ⟨hr, hws⟩ := List.forall_mem_cons.mp hcs
      have hrest := ih hws
      rw [Regained] at hc hr
      simp only [List.map_cons, When.map, whenPieces, Piece.textLengths_append,
        Piece.textLengths_cons, List.sum_cons, List.cons_append] at hrest ⊢
      omega

private theorem textLengths_else {otherwise : Option Expr}
    (h : ∀ x ∈ otherwise, Regained dialect x) :
    Piece.textLengths (elsePieces dialect (otherwise.map elided)) =
      Piece.textLengths (elsePieces dialect otherwise) +
        2 * (otherwise.toList.map fun x => x.exposed.length).sum := by
  cases otherwise with
  | none => rfl
  | some x =>
      have hx := h x rfl
      rw [Regained] at hx
      simp only [Option.map_some, elsePieces, Piece.textLengths_cons, Option.toList_some,
        List.map_cons, List.map_nil, List.sum_cons, List.sum_nil]
      omega

theorem textLengths_elided (dialect : Dialect) (e : Expr) :
    Piece.textLengths (e.elided.pieces dialect) =
      Piece.textLengths (e.pieces dialect) + 2 * e.exposed.length := by
  induction e using induct with
  | node e ih =>
      rw [length_exposed, elided_eq]
      cases e with
      | val | arg | col => rfl
      | and xs => exact textLengths_operands " AND " ih
      | or xs => exact textLengths_operands " OR " ih
      | cmp op l r =>
          have hl := textLengths_asOperand (ih l (by simp [children]))
          have hr := textLengths_asOperand (ih r (by simp [children]))
          have hfilter : ([l, r].filter isExposed).length =
              ([l].filter isExposed).length + ([r].filter isExposed).length := by
            rw [← List.length_append, ← List.filter_append]
            rfl
          simp only [mapChildren, dropCast, pieces, children, operands, hfilter,
            Piece.textLengths_append, Piece.textLengths_cons, List.map_cons, List.map_nil,
            List.sum_cons, List.sum_nil]
          omega
      | case whens otherwise ty =>
          have hwhens := textLengths_whens fun x hx => ih x (List.mem_append_left _ hx)
          have helse := textLengths_else fun x hx => ih x (otherwise_mem_children hx)
          simp only [mapChildren, dropCast, pieces, children, operands, Piece.textLengths_append,
            Piece.textLengths_cons, Piece.textLengths_nil, List.cons_append, List.map_append,
            List.sum_append, List.filter_nil, List.length_nil]
          omega
      | cast x ty =>
          have hx := ih x (List.mem_singleton_self x)
          rw [mapChildren, dropCast]
          split
          · rename_i hty
            rw [pieces, if_pos hty]
            simpa [children, operands] using hx
          · rename_i hty
            rw [pieces, if_neg hty, pieces, if_neg hty]
            simp only [children, operands, Piece.textLengths_append, Piece.textLengths_cons,
              Piece.textLengths_nil, List.cons_append, List.map_cons, List.map_nil, List.sum_cons,
              List.sum_nil, List.filter_nil, List.length_nil]
            omega
      | isNull negated x | not x =>
          have hx := textLengths_asOperand (ih x (List.mem_singleton_self x))
          simp only [mapChildren, dropCast, pieces, children, operands, Piece.textLengths_append,
            Piece.textLengths_cons, Piece.textLengths_nil, List.map_cons, List.map_nil,
            List.sum_cons, List.sum_nil]
          omega

end Parentheses

section Grouping

/-- No operand of the node loses its parentheses. -/
def Grouped (e : Expr) : Prop := ∀ x ∈ e.operands, x.isExposed = false

instance : DecidablePred Grouped := fun e =>
  inferInstanceAs (Decidable (∀ x ∈ e.operands, x.isExposed = false))

theorem exposed_eq_nil_iff {e : Expr} : e.exposed = [] ↔ Everywhere Grouped e := by
  simp only [exposed, List.filter_eq_nil_iff, List.mem_flatMap, forall_exists_index, and_imp,
    Bool.not_eq_true, Everywhere, Grouped]
  exact ⟨fun h x hx y hy => h y x hx hy, fun h y x hx hy => h x hx y hy⟩

/-- Where every operand keeps its parentheses, all pieces stay as they are. -/
theorem pieces_elided {dialect : Dialect} {e : Expr} (h : Everywhere Grouped e) :
    e.elided.pieces dialect = e.pieces dialect := by
  induction e using induct with
  | node e ih =>
      obtain ⟨hnode, hparts⟩ := everywhere_iff.mp h
      rcases elided_cases e with ⟨x, ty, rfl, hty, hdropped⟩ | hkept
      · have hx := List.mem_singleton_self x
        rw [hdropped, ih x hx (hparts x hx), pieces, if_pos hty]
      · have hoperands : ∀ x ∈ e.operands, x.elided.needsParentheses = x.needsParentheses := by
          intro x hx
          rw [needsParentheses_elided, hnode x hx, Bool.or_false]
        have hsame : ∀ x ∈ e.children, x.elided.pieces dialect = (x.pieces dialect).map id := by
          intro x hx
          rw [List.map_id, ih x hx (hparts x hx)]
        rw [hkept, pieces_mapChildren (fun _ => rfl) hoperands (fun _ _ => rfl) hsame,
          List.map_id']

/--
Taking the casts that are not written out of the tree changes nothing of what is bound. The text
stays the same exactly if no operand is such a cast around a compound expression.
-/
theorem toStatement_elided_iff (dialect : Dialect) (parameters : List Value) (e : Expr) :
    (e.elided.toStatement dialect parameters).parameters =
        (e.toStatement dialect parameters).parameters ∧
      ((e.elided.toStatement dialect parameters).sql = (e.toStatement dialect parameters).sql ↔
        Everywhere Grouped e) := by
  have hcount : e.elided.argumentCount = e.argumentCount :=
    argumentCount_congr fun n => by rw [slots_elided]
  refine ⟨?_, fun hsql => ?_, fun hgrouped => ?_⟩
  · simp only [toStatement, filterMap_pieces_elided dialect (f := Piece.bound?) fun _ => rfl]
  · have hlength := congrArg String.length hsql
    simp only [toStatement, hcount, Piece.length_join_number, textLengths_elided,
      filterMap_pieces_elided dialect (f := Piece.slot?) fun _ => rfl] at hlength
    have hnone : e.exposed.length = 0 := by omega
    exact exposed_eq_nil_iff.mp (List.eq_nil_of_length_eq_zero hnone)
  · simp only [toStatement, hcount, pieces_elided hgrouped]

/-- A negation around a conjunction that a cast hides. -/
def hiddenConjunction : Expr := not (cast (and [col "a" .bool, col "b" .bool]) .unknown)

/-- The negation of a conjunction is written as the conjunction of a negation. -/
theorem toStatement_elided_differs :
    (hiddenConjunction.toStatement .sqlite []).sql = "NOT \x22a\x22 AND \x22b\x22" ∧
      (hiddenConjunction.elided.toStatement .sqlite []).sql =
        "NOT (\x22a\x22 AND \x22b\x22)" ∧
      ¬ ∀ (dialect : Dialect) (parameters : List Value) (e : Expr),
        e.elided.toStatement dialect parameters = e.toStatement dialect parameters := by
  refine ⟨rfl, rfl, fun h => ?_⟩
  have hsql := congrArg Statement.sql (h .sqlite [] hiddenConjunction)
  cases hsql

end Grouping

end Expr

end QueryExpr
