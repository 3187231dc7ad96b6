import QueryExpr.Plan
import QueryExpr.Proofs.Placeholders
import QueryExpr.Proofs.Rewriting

/-!
# Binding a plan

A plan is bound with one value for every declared argument and then with the constants of its
statement. But its constants are numbered after the arguments that are left in the expression. So
every placeholder is given its own value exactly if the statement binds no constant or the last of
the declared arguments is still there.
-/

namespace QueryExpr

namespace Slot

/-- What belongs to a slot when the arguments have the given values. -/
def value? (given : List Value) : Slot → Option Value
  | argument position => given[position]?
  | constant v => some v

theorem exists_first_constant {slots : List Slot} (h : slots.filterMap constant? ≠ []) :
    ∃ i v, slots[i]? = some (.constant v) ∧ constantsBefore slots i = 0 := by
  obtain ⟨v, vs, hcons⟩ := List.exists_cons_of_ne_nil h
  have hfirst : (slots.filterMap constant?)[0]? = some v := by
    rw [hcons]
    rfl
  obtain ⟨i, hi, hbefore⟩ := exists_constant hfirst
  exact ⟨i, v, hi, hbefore⟩

end Slot

namespace Expr

theorem ne_null_of_mem_slots {e : Expr} {v : Value} (h : .constant v ∈ e.slots) : v ≠ .null := by
  obtain ⟨x, -, hslot⟩ := List.mem_filterMap.mp h
  cases x with
  | val w =>
      simp only [slot?] at hslot
      split at hslot
      · cases hslot
      · rename_i hnull
        cases hslot
        rintro rfl
        exact hnull rfl
  | _ => cases hslot

/-- The node is no argument at the given position or behind it. -/
private def Below (count : Nat) (e : Expr) : Prop := ∀ n, e = arg n → n < count

private theorem argumentCount_le_iff_below {e : Expr} {count : Nat} :
    e.argumentCount ≤ count ↔ Everywhere (Below count) e := by
  rw [argumentCount_le_iff]
  constructor
  · intro h x hx n hn
    exact h n (argument_mem_slots.mpr (hn ▸ hx))
  · intro h n hn
    exact h _ (argument_mem_slots.mp hn) n rfl

private theorem below_resolveTypes {arguments : List Ty} {count : Nat} {e : Expr}
    (h : Everywhere (Below count) e) : Everywhere (Below count) (e.resolveTypes arguments) := by
  refine everywhere_rebuild_of ?_ ?_ h
  · intro e g he n hn
    cases e <;> cases hn
    exact he n rfl
  · intro e he hparts
    unfold attachType
    split
    · exact everywhere_iff.mpr ⟨nofun, hparts⟩
    · exact everywhere_iff.mpr ⟨he, hparts⟩

theorem argumentCount_prepare_le (planner : Planner) (arguments : List Ty) {e : Expr}
    {count : Nat} (h : e.argumentCount ≤ count) :
    (planner.prepare arguments e).expr.argumentCount ≤ count := by
  rw [argumentCount_le_iff_below] at h ⊢
  unfold Planner.prepare
  dsimp only
  split
  · apply simplify_leaves arguments _ h
    intro x hleaf n hn
    rw [hn] at hleaf
    cases hleaf
  · exact below_resolveTypes h

end Expr

namespace Plan

/-- Arguments are numbered by their positions and constants after `count` arguments. -/
def NumberedAfter (plan : Plan) (dialect : Dialect) (count : Nat) : Prop :=
  let read := dialect.placeholders plan.statement.sql
  read.length = plan.expr.slots.length ∧
    (∀ (i n : Nat), plan.expr.slots[i]? = some (Slot.argument n) →
      read[i]? = some (some (n + 1))) ∧
    ∀ (i : Nat) (v : Value), plan.expr.slots[i]? = some (Slot.constant v) →
      read[i]? = some (some (count + (Slot.constantsBefore plan.expr.slots i + 1)))

/-- Bound with these values and then the constants, every placeholder gets what belongs to it. -/
def Supplied (plan : Plan) (dialect : Dialect) (given : List Value) : Prop :=
  let read := dialect.placeholders plan.statement.sql
  read.length = plan.expr.slots.length ∧
    ∀ (i : Nat) (slot : Slot), plan.expr.slots[i]? = some slot →
      ∃ number, read[i]? = some (some (number + 1)) ∧
        (given ++ plan.statement.parameters)[number]? = slot.value? given

section Binding

variable {planner : Planner} {arguments : List Ty} {e : Expr}

private theorem numberedAfter_prepare (arguments : List Ty) (e : Expr)
    (hdialect : planner.dialect = .postgresql ∨ planner.dialect = .sqlite) :
    let plan := planner.prepare arguments e
    plan.NumberedAfter planner.dialect plan.expr.argumentCount := by
  intro plan
  have hread : planner.dialect.placeholders plan.statement.sql =
      (Slot.numbers plan.expr.argumentCount plan.expr.slots).map some := by
    rw [← Dialect.shownNumber_of_numbered hdialect]
    exact Expr.placeholders_toStatement (Dialect.ne_canonical_of_numbered hdialect) [] plan.expr
  unfold NumberedAfter
  rw [hread]
  refine ⟨by rw [List.length_map, Slot.length_numbers], fun i n h => ?_, fun i v h => ?_⟩
  · rw [List.getElem?_map, Slot.getElem?_numbers_argument _ h]
    rfl
  · rw [List.getElem?_map, Slot.getElem?_numbers_constant _ h]
    rfl

private theorem parameters_prepare (arguments : List Ty) (e : Expr)
    (hdialect : planner.dialect = .postgresql ∨ planner.dialect = .sqlite) :
    let plan := planner.prepare arguments e
    plan.statement.parameters = plan.expr.slots.filterMap Slot.constant? :=
  Expr.parameters_toStatement (Dialect.ne_canonical_of_numbered hdialect) [] _

private theorem supplied_of_numberedAfter {plan : Plan} {dialect : Dialect} {given : List Value}
    (hparameters : plan.statement.parameters = plan.expr.slots.filterMap Slot.constant?)
    (hbelow : plan.expr.argumentCount ≤ given.length)
    (h : plan.NumberedAfter dialect given.length) : plan.Supplied dialect given := by
  obtain ⟨hlength, harguments, hconstants⟩ := h
  refine ⟨hlength, fun i slot hslot => ?_⟩
  cases slot with
  | argument n =>
      have hn : n < given.length :=
        Expr.argumentCount_le_iff.mp hbelow n (List.mem_of_getElem? hslot)
      exact ⟨n, harguments i n hslot, List.getElem?_append_left hn⟩
  | constant v =>
      refine ⟨given.length + Slot.constantsBefore plan.expr.slots i, hconstants i v hslot, ?_⟩
      rw [List.getElem?_append_right (Nat.le_add_right _ _), Nat.add_sub_cancel_left, hparameters]
      exact Slot.getElem?_constants hslot

private theorem not_supplied {plan : Plan} {dialect : Dialect} {count declared : Nat}
    (hconstant : plan.expr.slots.filterMap Slot.constant? ≠ []) (hcount : count < declared)
    (h : plan.NumberedAfter dialect count) :
    ¬ plan.Supplied dialect (List.replicate declared .null) := by
  intro hsupplied
  obtain ⟨i, v, hi, hfirst⟩ := Slot.exists_first_constant hconstant
  obtain ⟨number, hnumber, hvalue⟩ := hsupplied.2 i _ hi
  have hread := h.2.2 i v hi
  rw [hfirst, hnumber, Option.some.injEq, Option.some.injEq] at hread
  have hcountNumber : number = count := by omega
  rw [hcountNumber, List.getElem?_append_left (by simpa using hcount),
    List.getElem?_replicate_of_lt hcount] at hvalue
  exact Expr.ne_null_of_mem_slots (List.mem_of_getElem? hi) (Option.some.inj hvalue).symm

/--
With numbered placeholders a plan can be bound as documented, with a value for each declared
argument and the constants after them, exactly if it binds no constant or its expression reaches for
the last declared argument.
-/
theorem prepare_supplied_iff
    (hdialect : planner.dialect = .postgresql ∨ planner.dialect = .sqlite)
    (hbelow : ∀ n, .argument n ∈ e.slots → n < arguments.length) :
    let plan := planner.prepare arguments e
    let reached := plan.statement.parameters = [] ∨ plan.expr.argumentCount = arguments.length
    (plan.NumberedAfter planner.dialect arguments.length ↔ reached) ∧
      ((∀ given : List Value, given.length = arguments.length →
        plan.Supplied planner.dialect given) ↔ reached) := by
  intro plan reached
  have hle : plan.expr.argumentCount ≤ arguments.length :=
    Expr.argumentCount_prepare_le planner arguments (Expr.argumentCount_le_iff.mpr hbelow)
  have hparameters := parameters_prepare arguments e hdialect
  have hnumbered := numberedAfter_prepare arguments e hdialect
  have hif : reached → plan.NumberedAfter planner.dialect arguments.length := by
    rintro (hnone | hcount)
    · refine ⟨hnumbered.1, hnumbered.2.1, fun i v hi => ?_⟩
      have hv := Slot.getElem?_constants hi
      rw [← hparameters, hnone] at hv
      cases hv
    · rw [← hcount]
      exact hnumbered
  have honly : ¬ reached → ¬ plan.Supplied planner.dialect
      (List.replicate arguments.length .null) := by
    intro hnot
    rw [not_or] at hnot
    exact not_supplied (hparameters ▸ hnot.1) (Nat.lt_of_le_of_ne hle hnot.2) hnumbered
  have hsupply : plan.NumberedAfter planner.dialect arguments.length →
      ∀ given : List Value, given.length = arguments.length →
        plan.Supplied planner.dialect given := by
    intro h given hgiven
    exact supplied_of_numberedAfter hparameters (hgiven ▸ hle) (hgiven ▸ h)
  have hback : (∀ given : List Value, given.length = arguments.length →
      plan.Supplied planner.dialect given) → reached := fun h =>
    Classical.byContradiction fun hnot => honly hnot (h _ List.length_replicate)
  exact ⟨⟨fun h => hback (hsupply h), hif⟩, hback, fun h => hsupply (hif h)⟩

end Binding

/-- A constant, and no argument. -/
def constantOnly : Expr := .cmp .eq (.col "x" .i64) (.val (.i64 5))

/-- An argument that simplification drops, in front of a constant that it keeps. -/
def droppedArgument : Expr := .or [.and [.arg 0, .val (.bool false)], constantOnly]

/-- An argument behind an unused one. -/
def lastArgument : Expr := .cmp .lt (.arg 1) (.val (.i64 5))

theorem prepare_supplied_iff_lastArgument :
    let plan := Planner.prepare ⟨.sqlite, true⟩ [.bool, .i64] lastArgument
    (Planner.mk .sqlite true).dialect = .sqlite ∧ (∀ n, .argument n ∈ lastArgument.slots → n < 2) ∧
      plan.statement = ⟨"?2 < ?3", [.i64 5]⟩ ∧ plan.NumberedAfter .sqlite 2 ∧
      plan.Supplied .sqlite [.bool true, .i64 3] := by
  have hbelow : ∀ n, .argument n ∈ lastArgument.slots → n < [Ty.bool, Ty.i64].length :=
    Expr.argumentCount_le_iff.mp (by decide)
  have hiff := @prepare_supplied_iff ⟨.sqlite, true⟩ _ _ (Or.inr rfl) hbelow
  have hreached : (Planner.prepare ⟨.sqlite, true⟩ [.bool, .i64] lastArgument).expr.argumentCount =
      2 := rfl
  exact ⟨rfl, hbelow, rfl, hiff.1.mpr (Or.inr hreached), hiff.2.mpr (Or.inr hreached) _ rfl⟩

/-- A constant takes the number of a declared argument that is unused, or no longer used. -/
theorem prepare_not_supplied :
    (Planner.prepare ⟨.sqlite, false⟩ [.bool] constantOnly).statement =
        ⟨"\x22x\x22 = ?1", [.i64 5]⟩ ∧
      (Planner.prepare ⟨.sqlite, true⟩ [.bool] droppedArgument).statement =
        ⟨"\x22x\x22 = ?1", [.i64 5]⟩ ∧
      ¬ ∀ (planner : Planner) (arguments : List Ty) (e : Expr),
        planner.dialect = .postgresql ∨ planner.dialect = .sqlite →
        (∀ n, .argument n ∈ e.slots → n < arguments.length) →
        (planner.prepare arguments e).NumberedAfter planner.dialect arguments.length ∧
          ∀ given : List Value, given.length = arguments.length →
            (planner.prepare arguments e).Supplied planner.dialect given := by
  refine ⟨rfl, rfl, fun h => ?_⟩
  have hbelow : ∀ n, .argument n ∈ droppedArgument.slots → n < [Ty.bool].length :=
    Expr.argumentCount_le_iff.mp (by decide)
  have hnumbered := (h ⟨.sqlite, true⟩ [.bool] droppedArgument (Or.inr rfl) hbelow).1
  have hread := hnumbered.2.2 0 (.i64 5) rfl
  cases hread

end Plan

end QueryExpr
