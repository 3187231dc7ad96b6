import QueryExpr.Proofs.ErrorKinds
import QueryExpr.Proofs.Overflow
import QueryExpr.Proofs.Shrinking

/-!
# Inputs that answer everything

A row that binds the columns of an expression and holds as many arguments as the expression counts
answers every look-up, also those of the simplified expression, which asks for no more. Only a
look-up without an answer is reported as unresolved, so neither evaluation fails that way.
-/

namespace QueryExpr

/-- The report that the input does not answer a look-up. -/
def Fault.isUnresolved : Fault → Bool
  | .evaluation (.unresolvedColumn _) | .evaluation (.unresolvedArgument _) => true
  | _ => false

/-- Somewhere on its chain the error reports a look-up without an answer. -/
def Error.isUnresolved (e : Error) : Bool := e.chain.any Fault.isUnresolved

namespace Ty

private theorem isUnresolved_of_readText {ty : Ty} {s : String} {fault : Fault}
    (h : ty.readText s = .error fault) : fault.isUnresolved = false := by
  have hnumeral : ∀ {α : Type} {r : Except NumeralFault α},
      r.mapError numeralFault = .error fault → fault.isUnresolved = false := by
    intro α r hr
    cases r with
    | ok a => cases hr
    | error numeral =>
        cases hr
        rfl
  cases ty with
  | bool =>
      simp only [readText] at h
      split at h
      · cases h
      · cases h
        rfl
  | i32 | i64 | f64 => exact hnumeral h
  | string | null | unknown => cases h

theorem isUnresolved_of_convert_error {ty : Ty} {v : Value} {err : Error}
    (h : ty.convert v = .error err) : err.isUnresolved = false := by
  rcases convert_error h with rfl | ⟨s, fault, -, hread, rfl⟩
  · rfl
  · have hfault := isUnresolved_of_readText hread
    rw [Error.context_of_own _ rfl rfl]
    change (false || (fault.isUnresolved || false)) = false
    rw [hfault]
    rfl

end Ty

namespace Expr

variable {input : Input} {err : Error}

/-- The input answers every look-up the expression can make. -/
def AnsweredBy (e : Expr) (input : Input) : Prop :=
  ∀ l ∈ e.occurrences, (input.answer? l).isSome = true

/-- Only a node that asks in vain raises an error of this kind. -/
theorem Raises.exists_unanswered {e : Expr} (h : e.Raises input err)
    (herr : err.isUnresolved = true) : ∃ l ∈ e.lookup?, input.answer? l = none := by
  cases h with
  | unanswered hl hrequire => exact ⟨_, hl, (require_error hrequire).1⟩
  | notBoolean | incomparable => cases herr
  | refused hty hconvert =>
      rw [Ty.isUnresolved_of_convert_error hconvert] at herr
      cases herr

theorem AnsweredBy.isUnresolved {e : Expr} (he : e.AnsweredBy input)
    (h : e.FailsWith input err) : err.isUnresolved = false := by
  rw [Bool.eq_false_iff]
  intro herr
  rcases h.traced with rfl | ⟨x, hx, hraises⟩
  · cases herr
  · obtain ⟨l, hl, hnone⟩ := hraises.exists_unanswered herr
    have hanswer := he l (List.mem_filterMap.mpr ⟨x, hx, hl⟩)
    rw [hnone] at hanswer
    cases hanswer

/-- Simplified, an expression asks for nothing new. -/
theorem AnsweredBy.simplify {e : Expr} (he : e.AnsweredBy input) (arguments : List Ty) :
    (e.simplify arguments).AnsweredBy input :=
  fun l hl => he l ((fewer_simplify arguments e).lookups_sublist.subset hl)

theorem answeredBy_row {e : Expr} {row : Row}
    (hcolumns : ∀ name, .column name ∈ e.occurrences → name ∈ row.names)
    (harguments : e.argumentCount ≤ row.arguments.length) : e.AnsweredBy row.toInput := by
  intro l hl
  cases l with
  | column name =>
      obtain ⟨b, hb, rfl⟩ := List.mem_map.mp (hcolumns name hl)
      rw [← Option.ne_none_iff_isSome]
      intro hnone
      have hdiffers := List.lookup_eq_none_iff.mp hnone b hb
      simp at hdiffers
  | argument n =>
      have hn : n < row.arguments.length :=
        Nat.lt_of_lt_of_le (lt_argumentCount (argument_mem_occurrences.mp hl)) harguments
      change (row.arguments[n]?).isSome = true
      rw [List.getElem?_eq_getElem hn]
      rfl

/--
Arguments that are numbered by words are counted in a build of either kind. A row with the columns
of the expression and as many arguments as are counted answers all it is asked, and no failure, of
the expression or of what it is simplified to, is for want of an answer.
-/
theorem counted_row_suffices (o : Overflow) (arguments : List Ty) {e : Expr}
    (hwords : ∀ n, .argument n ∈ e.occurrences → n + 1 < UInt64.size) :
    ∃ count, e.argumentCount? o = some count ∧
      ∀ row : Row, (∀ name, .column name ∈ e.occurrences → name ∈ row.names) →
        count ≤ row.arguments.length →
        ∀ x ∈ [e, e.simplify arguments],
          (∀ l ∈ (x.eval row.toInput).lookups, (row.toInput.answer? l).isSome = true) ∧
            ∀ err, x.FailsWith row.toInput err → err.isUnresolved = false := by
  have hcount : e.argumentCount? o = some e.argumentCount :=
    argumentCount?_eq_some o fun n hn => hwords n (argument_mem_occurrences.mpr hn)
  refine ⟨e.argumentCount, hcount, fun row hcolumns harguments => ?_⟩
  have hanswered : ∀ x ∈ [e, e.simplify arguments], x.AnsweredBy row.toInput := by
    have he := answeredBy_row hcolumns harguments
    exact List.forall_mem_cons.mpr ⟨he, List.forall_mem_singleton.mpr (he.simplify arguments)⟩
  intro x hx
  refine ⟨fun l hl => ?_, fun err herr => (hanswered x hx).isUnresolved herr⟩
  exact hanswered x hx l ((lookups_sublist_occurrences row.toInput x).subset hl)

/-- A CASE whose condition reaches for the third argument and whose result may be no number. -/
def farReaching : Expr :=
  case [⟨cmp .gt (col "size" .i64) (arg 2), cast (col "label" .string) .i64⟩]
    (some (or [isNull true (arg 0), val (.bool false)])) none

theorem counted_row_suffices_refusedText :
    let row : Row := ⟨[("label", .string "x"), ("size", .i64 5)], [.null, .null, .i64 1]⟩
    (∀ n, .argument n ∈ farReaching.occurrences → n + 1 < UInt64.size) ∧
      farReaching.argumentCount? .stops = some 3 ∧
      (∀ name, .column name ∈ farReaching.occurrences → name ∈ row.names) ∧
      (∃ err, farReaching.FailsWith row.toInput err ∧ err.isUnresolved = false) ∧
      (∃ err, (farReaching.simplify [.bool]).FailsWith row.toInput err ∧
        err.isUnresolved = false) ∧
      ∃ err, farReaching.FailsWith (Row.toInput ⟨row.columns, [.null, .null]⟩) err ∧
        err.isUnresolved = true := by
  intro row
  have hoccurrences : farReaching.occurrences =
      [.column "size", .argument 2, .column "label", .argument 0] := rfl
  have hwords : ∀ n, .argument n ∈ farReaching.occurrences → n + 1 < UInt64.size := by
    intro n hn
    rw [hoccurrences] at hn
    simp only [List.mem_cons, List.not_mem_nil, or_false, Lookup.argument.injEq, reduceCtorEq,
      false_or] at hn
    rcases hn with rfl | rfl <;> decide
  have hcolumns : ∀ name, .column name ∈ farReaching.occurrences → name ∈ row.names := by
    intro name hname
    rw [hoccurrences] at hname
    simp only [List.mem_cons, List.not_mem_nil, or_false, Lookup.column.injEq, reduceCtorEq,
      false_or] at hname
    rcases hname with rfl | rfl <;> decide
  obtain ⟨count, hcount, hrow⟩ := counted_row_suffices .stops [.bool] hwords
  have hthree : farReaching.argumentCount? .stops = some 3 := rfl
  rw [hthree, Option.some.injEq] at hcount
  subst hcount
  have hsuffices := hrow row hcolumns (Nat.le_refl 3)
  have hfails : ∃ err, (farReaching.eval row.toInput).result = .error err := ⟨_, rfl⟩
  have hsimplified : ∃ err, ((farReaching.simplify [.bool]).eval row.toInput).result =
      .error err := ⟨_, rfl⟩
  obtain ⟨err, herr⟩ := hfails
  obtain ⟨err', herr'⟩ := hsimplified
  exact ⟨hwords, hthree, hcolumns,
    ⟨err, Or.inl herr, (hsuffices _ List.mem_cons_self).2 err (Or.inl herr)⟩,
    ⟨err', Or.inl herr', (hsuffices _ (by simp)).2 err' (Or.inl herr')⟩,
    _, Or.inl rfl, rfl⟩

/-- The last position has no word for its number. Where the carry is dropped none is counted, and
the empty row holds enough arguments without an answer. -/
theorem counted_row_not_suffices :
    let e : Expr := arg (UInt64.size - 1)
    e.argumentCount? .stops = none ∧ e.argumentCount? .wraps = some 0 ∧
      (∃ err, e.FailsWith Row.empty.toInput err ∧ err.isUnresolved = true) ∧
      ¬ ∀ (e : Expr) (row : Row) (count : Nat), e.argumentCount? .wraps = some count →
        (∀ name, .column name ∈ e.occurrences → name ∈ row.names) →
        count ≤ row.arguments.length →
        ∀ err, e.FailsWith row.toInput err → err.isUnresolved = false := by
  intro e
  have hcount : e.argumentCount? .wraps = some 0 := rfl
  have hfails : ∃ err, e.FailsWith Row.empty.toInput err ∧ err.isUnresolved = true :=
    ⟨_, Or.inl rfl, rfl⟩
  refine ⟨rfl, hcount, hfails, fun h => ?_⟩
  obtain ⟨err, herr, hunresolved⟩ := hfails
  have hcolumns : ∀ name, .column name ∈ e.occurrences → name ∈ Row.empty.names := by
    intro name hname
    have hnone : e.occurrences = [.argument (UInt64.size - 1)] := rfl
    simp [hnone] at hname
  rw [h e Row.empty 0 hcount hcolumns (Nat.le_refl 0) err herr] at hunresolved
  cases hunresolved

end Expr

end QueryExpr
