import QueryExpr.Proofs.Placeholders
import QueryExpr.Sql.Overflow

/-!
# Numbers that are words

A build of either kind writes the exact numbers as long as all of them are words, and the build that
stops gives no statement otherwise. So what is known of the exact numbers holds of those written, up
to the last word. Behind it they are no longer told apart.
-/

namespace QueryExpr

namespace Overflow

theorem add_of_lt {a b : Nat} (h : a + b < UInt64.size) (o : Overflow) : o.add a b = some (a + b) :=
  if_pos h

theorem add_stops {a b n : Nat} :
    stops.add a b = some n ↔ a + b < UInt64.size ∧ n = a + b := by
  unfold add
  by_cases h : a + b < UInt64.size
  · simp [h, eq_comm]
  · simp [h]

theorem isSome_add_wraps (a b : Nat) : (wraps.add a b).isSome = true := by
  unfold add
  split <;> rfl

private theorem largest?_map_some (counts : List Nat) :
    largest? (counts.map some) = some (counts.foldr max 0) := by
  induction counts with
  | nil => rfl
  | cons count counts ih =>
      change (do return max (← some count) (← largest? (counts.map some))) = _
      rw [ih]
      rfl

theorem isSome_largest?_iff {counts : List (Option Nat)} :
    (largest? counts).isSome = true ↔ ∀ count ∈ counts, count.isSome = true := by
  induction counts with
  | nil => simp [largest?]
  | cons count counts ih =>
      change (do return max (← count) (← largest? counts)).isSome = true ↔ _
      rw [List.forall_mem_cons, ← ih]
      cases count <;> cases largest? counts <;> simp

end Overflow

/-- The number that is written, if one is, is a word. -/
def Token.isWord : Token → Bool
  | .text _ => true
  | .slot number => number < UInt64.size

namespace Expr

section ArgumentCount

variable (o : Overflow)

theorem argumentCount?_eq (e : Expr) :
    e.argumentCount? o = match e with
      | arg position => o.add position 1
      | e => Overflow.largest? (e.children.map (argumentCount? o)) := by
  rw [argumentCount?, fold_eq]
  cases e <;> rfl

theorem argumentCount?_eq_some {e : Expr} (h : ∀ n, .argument n ∈ e.slots → n + 1 < UInt64.size) :
    e.argumentCount? o = some e.argumentCount := by
  induction e using induct with
  | node e ih =>
      have hparts : e.children.map (argumentCount? o) =
          (e.children.map argumentCount).map some := by
        rw [List.map_map]
        apply List.map_congr_left
        intro x hx
        apply ih x hx
        intro n hn
        apply h n
        rw [slots_eq]
        exact List.mem_append_right _ (List.mem_flatMap.mpr ⟨x, hx, hn⟩)
      rw [argumentCount?_eq, argumentCount_eq]
      cases e with
      | arg position =>
          apply Overflow.add_of_lt
          apply h position
          rw [slots_eq]
          exact List.mem_cons_self
      | _ =>
          dsimp only
          rw [hparts, Overflow.largest?_map_some]

theorem argument_lt_of_argumentCount?_stops {e : Expr}
    (h : (e.argumentCount? .stops).isSome = true) {n : Nat} (hn : .argument n ∈ e.slots) :
    n + 1 < UInt64.size := by
  induction e using induct with
  | node e ih =>
      rw [argumentCount?_eq] at h
      rw [slots_eq, List.mem_append, List.mem_flatMap] at hn
      cases e with
      | arg position =>
          obtain ⟨count, hcount⟩ := Option.isSome_iff_exists.mp h
          have hposition : n = position := by simpa [slot?, children] using hn
          rw [hposition]
          exact (Overflow.add_stops.mp hcount).1
      | _ =>
          rcases hn with hn | ⟨x, hx, hn⟩
          · simp [slot?] at hn
          · exact ih x hx (Overflow.isSome_largest?_iff.mp h _ (List.mem_map_of_mem hx)) hn

theorem isSome_argumentCount?_wraps (e : Expr) : (e.argumentCount? .wraps).isSome = true := by
  induction e using induct with
  | node e ih =>
      rw [argumentCount?_eq]
      cases e with
      | arg position => exact Overflow.isSome_add_wraps position 1
      | _ => exact Overflow.isSome_largest?_iff.mpr (List.forall_mem_map.mpr ih)

end ArgumentCount

/-- Every number of the statement is a word. -/
def Fits (dialect : Dialect) (parameters : List Value) (e : Expr) : Prop :=
  ∀ t ∈ Piece.number (e.argumentCount + parameters.length) (e.pieces dialect), t.isWord = true

instance (dialect : Dialect) (parameters : List Value) (e : Expr) :
    Decidable (e.Fits dialect parameters) :=
  inferInstanceAs (Decidable (∀ t ∈ Piece.number _ _, t.isWord = true))

end Expr

namespace Piece

variable (o : Overflow)

theorem number?_eq_some {count listed : Nat} {ps : List Piece}
    (h : ∀ t ∈ number (count + listed) ps, t.isWord = true) :
    number? o count listed ps = some (number (count + listed) ps) := by
  induction ps generalizing listed with
  | nil => rfl
  | cons p ps ih =>
      cases p with
      | text s =>
          rw [number?, ih fun t ht => h t (List.mem_cons_of_mem _ ht)]
          rfl
      | argument position =>
          have hword : position + 1 < UInt64.size := by
            simpa [Token.isWord] using h _ List.mem_cons_self
          rw [number?, Overflow.add_of_lt hword, ih fun t ht => h t (List.mem_cons_of_mem _ ht)]
          rfl
      | bound v =>
          have hword : count + (listed + 1) < UInt64.size := by
            simpa [Token.isWord, Nat.add_assoc] using h _ List.mem_cons_self
          rw [number?, Overflow.add_of_lt hword, ih fun t ht => h t (List.mem_cons_of_mem _ ht)]
          rfl

theorem isWord_of_number?_stops {count listed : Nat} {ps : List Piece}
    (h : (number? .stops count listed ps).isSome = true) :
    ∀ t ∈ number (count + listed) ps, t.isWord = true := by
  rw [Option.isSome_iff_exists] at h
  induction ps generalizing listed with
  | nil => exact nofun
  | cons p ps ih =>
      obtain ⟨ts, h⟩ := h
      cases p with
      | text s =>
          obtain ⟨rest, hrest, -⟩ := Option.bind_eq_some_iff.mp h
          exact List.forall_mem_cons.mpr ⟨rfl, ih ⟨rest, hrest⟩⟩
      | argument position =>
          obtain ⟨n, hn, h⟩ := Option.bind_eq_some_iff.mp h
          obtain ⟨rest, hrest, -⟩ := Option.bind_eq_some_iff.mp h
          refine List.forall_mem_cons.mpr ⟨?_, ih ⟨rest, hrest⟩⟩
          exact decide_eq_true (Overflow.add_stops.mp hn).1
      | bound v =>
          obtain ⟨n, hn, h⟩ := Option.bind_eq_some_iff.mp h
          obtain ⟨rest, hrest, -⟩ := Option.bind_eq_some_iff.mp h
          refine List.forall_mem_cons.mpr ⟨?_, ih ⟨rest, hrest⟩⟩
          exact decide_eq_true (Overflow.add_stops.mp hn).1

theorem exists_number?_wraps (count listed before : Nat) (ps : List Piece) :
    ∃ ts, number? .wraps count listed ps = some ts ∧
      ts.map Dialect.mysql.writeToken = (number before ps).map Dialect.mysql.writeToken := by
  induction ps generalizing listed before with
  | nil => exact ⟨[], rfl, rfl⟩
  | cons p ps ih =>
      cases p with
      | text s =>
          obtain ⟨ts, hts, hwrite⟩ := ih listed before
          refine ⟨.text s :: ts, ?_, ?_⟩
          · rw [number?, hts]
            rfl
          · rw [number, List.map_cons, List.map_cons, hwrite]
      | argument position =>
          obtain ⟨ts, hts, hwrite⟩ := ih listed before
          obtain ⟨n, hn⟩ := Option.isSome_iff_exists.mp (Overflow.isSome_add_wraps position 1)
          refine ⟨.slot n :: ts, ?_, ?_⟩
          · rw [number?, hn, hts]
            rfl
          · rw [number, List.map_cons, List.map_cons, hwrite]
            rfl
      | bound v =>
          obtain ⟨ts, hts, hwrite⟩ := ih (listed + 1) (before + 1)
          obtain ⟨n, hn⟩ := Option.isSome_iff_exists.mp
            (Overflow.isSome_add_wraps count (listed + 1))
          refine ⟨.slot n :: ts, ?_, ?_⟩
          · rw [number?, hn, hts]
            rfl
          · rw [number, List.map_cons, List.map_cons, hwrite]
            rfl

end Piece

namespace Expr

variable {o : Overflow} {dialect : Dialect} {parameters : List Value} {e : Expr}

private theorem argument_mem_pieces {n : Nat} :
    .argument n ∈ e.pieces dialect ↔ .argument n ∈ e.slots := by
  let reached : Piece → Option Nat
    | .argument n => some n
    | _ => none
  have hreached : n ∈ (e.pieces dialect).filterMap reached ↔ .argument n ∈ e.slots := by
    induction e using induct with
    | node e ih =>
        rw [filterMap_pieces dialect (fun _ => rfl), slots_eq, List.mem_append, List.mem_append,
          List.mem_flatMap, List.mem_flatMap]
        apply or_congr
        · cases e with
          | val v =>
              cases v <;> cases dialect <;>
                simp [ownPieces, Dialect.constant, slot?, reached, Value.isNull]
          | arg position => simp [ownPieces, slot?, reached]
          | _ => simp [ownPieces, slot?]
        · exact exists_congr fun x => and_congr_right fun hx => ih x hx
  rw [← hreached, List.mem_filterMap]
  constructor
  · exact fun h => ⟨_, h, rfl⟩
  · rintro ⟨p, hp, hn⟩
    cases p <;> cases hn
    exact hp

private theorem slot_mem_number {n : Nat} {ps : List Piece} (before : Nat)
    (h : .argument n ∈ ps) : .slot (n + 1) ∈ Piece.number before ps := by
  induction ps generalizing before with
  | nil => cases h
  | cons p ps ih =>
      rcases List.mem_cons.mp h with rfl | hlater
      · exact List.mem_cons_self
      · cases p <;> exact List.mem_cons_of_mem _ (ih _ hlater)

theorem Fits.argumentCount? (h : e.Fits dialect parameters) (o : Overflow) :
    e.argumentCount? o = some e.argumentCount := by
  apply argumentCount?_eq_some
  intro n hn
  exact of_decide_eq_true (h _ (slot_mem_number _ (argument_mem_pieces.mpr hn)))

/-- Where all numbers are words, they are the exact ones. -/
theorem Fits.toStatement? (h : e.Fits dialect parameters) (o : Overflow) :
    e.toStatement? o dialect parameters = some (e.toStatement dialect parameters) := by
  rw [Expr.toStatement?, h.argumentCount? o]
  change (Piece.number? o e.argumentCount parameters.length (e.pieces dialect) >>= _) = _
  rw [Piece.number?_eq_some o h]
  rfl

/-- The build that stops gives a statement just where all numbers are words. -/
theorem isSome_toStatement?_stops :
    (e.toStatement? .stops dialect parameters).isSome = true ↔ e.Fits dialect parameters := by
  constructor
  · intro h
    obtain ⟨statement, h⟩ := Option.isSome_iff_exists.mp h
    obtain ⟨count, hcount, h⟩ := Option.bind_eq_some_iff.mp h
    obtain ⟨tokens, htokens, -⟩ := Option.bind_eq_some_iff.mp h
    have hexact : e.argumentCount? .stops = some e.argumentCount :=
      argumentCount?_eq_some .stops fun n hn =>
        argument_lt_of_argumentCount?_stops (by rw [hcount]; rfl) hn
    rw [hcount, Option.some.injEq] at hexact
    subst hexact
    exact Piece.isWord_of_number?_stops (by rw [htokens]; rfl)
  · intro h
    rw [h.toStatement?]
    rfl

/-- Where the carry is dropped there is a statement in any case. It binds what is to be bound, and a
dialect that shows no numbers writes the same text. -/
theorem exists_toStatement?_wraps (dialect : Dialect) (parameters : List Value) (e : Expr) :
    ∃ statement, e.toStatement? .wraps dialect parameters = some statement ∧
      statement.parameters = (e.toStatement dialect parameters).parameters ∧
      (dialect = .mysql → statement = e.toStatement dialect parameters) := by
  obtain ⟨count, hcount⟩ := Option.isSome_iff_exists.mp (isSome_argumentCount?_wraps e)
  obtain ⟨tokens, htokens, hwrite⟩ := Piece.exists_number?_wraps count parameters.length
    (e.argumentCount + parameters.length) (e.pieces dialect)
  refine ⟨⟨String.join (tokens.map dialect.writeToken), _⟩, ?_, rfl, ?_⟩
  · rw [toStatement?, hcount]
    change (Piece.number? .wraps count parameters.length (e.pieces dialect) >>= _) = _
    rw [htokens]
    rfl
  · rintro rfl
    rw [hwrite]
    rfl

/--
The placeholders of a statement stand for the slots of the expression one by one, and the constants
among these are what the statement binds. An argument is numbered by its position; constants are
numbered after all arguments of the expression and all parameters before them. So it is in a build
of either kind, up to numbers that are no words; where the carry is dropped, these harm only the
dialects that write numbers.
-/
theorem toStatement?_slots (o : Overflow) (dialect : Dialect) (parameters : List Value) (e : Expr)
    (hfits : o = .stops ∨ dialect = .postgresql ∨ dialect = .sqlite → e.Fits dialect parameters) :
    ((e.argumentCount = 0 ∧ ∀ n, .argument n ∉ e.slots) ∨
      ∃ n, e.argumentCount = n + 1 ∧ .argument n ∈ e.slots ∧
        ∀ m, .argument m ∈ e.slots → m ≤ n) ∧
    ∃ statement, e.toStatement? o dialect parameters = some statement ∧
      (dialect = .canonical → statement.parameters = parameters) ∧
      (dialect ≠ .canonical →
        let read := dialect.placeholders statement.sql
        statement.parameters = parameters ++ e.slots.filterMap Slot.constant? ∧
        read.length = e.slots.length ∧
        (dialect ≠ .mysql →
          e.argumentCount? o = some e.argumentCount ∧
          (∀ (i n : Nat), e.slots[i]? = some (Slot.argument n) → read[i]? = some (some (n + 1))) ∧
          ∀ (i : Nat) (v : Value), e.slots[i]? = some (Slot.constant v) →
            read[i]? = some (some
              (e.argumentCount + parameters.length + (Slot.constantsBefore e.slots i + 1))) ∧
            statement.parameters[parameters.length + Slot.constantsBefore e.slots i]? = some v ∧
            ∀ j, j ≠ i → read[j]? ≠ read[i]?)) := by
  obtain ⟨hcanonical, hcount, hbinds⟩ := toStatement_slots e parameters
  refine ⟨hcount, ?_⟩
  by_cases hasked : o = .stops ∨ dialect = .postgresql ∨ dialect = .sqlite
  · have hwords := hfits hasked
    refine ⟨_, hwords.toStatement? o, ?_, fun hdialect => ?_⟩
    · rintro rfl
      exact hcanonical
    · obtain ⟨hparameters, hlength, hnumbers⟩ := hbinds dialect hdialect
      exact ⟨hparameters, hlength, fun hmysql => ⟨hwords.argumentCount? o, hnumbers hmysql⟩⟩
  · obtain ⟨hstops, hpostgresql, hsqlite⟩ : o ≠ .stops ∧ dialect ≠ .postgresql ∧
        dialect ≠ .sqlite := by simpa only [not_or] using hasked
    obtain rfl : o = .wraps := by cases o <;> first | rfl | exact absurd rfl hstops
    obtain ⟨statement, hstatement, hparameters, hmysql⟩ :=
      exists_toStatement?_wraps dialect parameters e
    refine ⟨statement, hstatement, ?_, fun hdialect => ?_⟩
    · rintro rfl
      rw [hparameters, hcanonical]
    · obtain rfl : dialect = .mysql := by
        cases dialect <;> first | rfl | contradiction
      rw [hmysql rfl]
      obtain ⟨hbound, hlength, -⟩ := hbinds .mysql hdialect
      exact ⟨hbound, hlength, fun h => absurd rfl h⟩

/-- An argument, texts that look like placeholders, and a null that is not bound. -/
def mixedCase : Expr :=
  .case [⟨.cmp .eq (.col "a\x22 = $7" .string) (.val (.string "it's $1")), .val .null⟩,
    ⟨.cmp .lt (.arg 1) (.cast (.val (.i64 5)) .unknown), .arg 0⟩] (some (.val (.bool true))) none

theorem toStatement?_slots_mixedCase :
    let statement := mixedCase.toStatement .postgresql [.i32 0]
    let read := Dialect.postgresql.placeholders statement.sql
    mixedCase.Fits .postgresql [.i32 0] ∧
    mixedCase.toStatement? .stops .postgresql [.i32 0] = some statement ∧
    mixedCase.slots = [.constant (.string "it's $1"), .argument 1, .constant (.i64 5), .argument 0,
      .constant (.bool true)] ∧
    read.length = 5 ∧ read[1]? = some (some 2) ∧ read[2]? = some (some 5) ∧
      statement.parameters[2]? = some (.i64 5) ∧ ∀ j, j ≠ 2 → read[j]? ≠ read[2]? := by
  intro statement read
  have hwords : mixedCase.Fits .postgresql [.i32 0] := by decide
  obtain ⟨-, found, hfound, -, hbinds⟩ :=
    toStatement?_slots .stops .postgresql [.i32 0] mixedCase fun _ => hwords
  obtain rfl : statement = found := Option.some.inj ((hwords.toStatement? .stops).symm.trans hfound)
  obtain ⟨-, hlength, hnumbers⟩ := hbinds (by decide)
  obtain ⟨-, harguments, hconstants⟩ := hnumbers (by decide)
  obtain ⟨hnumber, hvalue, hother⟩ := hconstants 2 (.i64 5) rfl
  exact ⟨hwords, hfound, rfl, hlength, harguments 1 1 rfl, hnumber, hvalue, hother⟩

/-- Behind the last argument but one there is no word for the number of a constant. -/
def farComparisons : Expr :=
  .and [.cmp .eq (.arg (UInt64.size - 2)) (.val (.i64 5)), .cmp .eq (.arg 0) (.val (.i64 7))]

/-- No build numbers every statement: one has no text, and in the other an argument and a constant
share a number. -/
theorem toStatement?_not_numbered :
    farComparisons.toStatement? .stops .sqlite [] = none ∧
      farComparisons.toStatement? .wraps .sqlite [] =
        some ⟨"(?18446744073709551615 = ?0) AND (?1 = ?1)", [.i64 5, .i64 7]⟩ ∧
      ∀ o : Overflow, ¬ ∀ e : Expr, ∃ statement, e.toStatement? o .sqlite [] = some statement ∧
        ∀ (i : Nat) (v : Value), e.slots[i]? = some (Slot.constant v) →
          ∀ j, j ≠ i → (Dialect.sqlite.placeholders statement.sql)[j]? ≠
            (Dialect.sqlite.placeholders statement.sql)[i]? := by
  have hstops : farComparisons.toStatement? .stops .sqlite [] = none := rfl
  have hwraps : farComparisons.toStatement? .wraps .sqlite [] =
      some ⟨"(?18446744073709551615 = ?0) AND (?1 = ?1)", [.i64 5, .i64 7]⟩ := rfl
  refine ⟨hstops, hwraps, fun o h => ?_⟩
  obtain ⟨statement, hstatement, hother⟩ := h farComparisons
  cases o with
  | stops =>
      rw [hstops] at hstatement
      cases hstatement
  | wraps =>
      rw [hwraps, Option.some.injEq] at hstatement
      subst hstatement
      exact hother 3 (.i64 7) rfl 2 (by decide) rfl

end Expr

theorem Planner.prepare?_eq_some (o : Overflow) {planner : Planner} {arguments : List Ty} {e : Expr}
    (hkey : (planner.prepare arguments e).expr.Fits .canonical [])
    (hstatement : (planner.prepare arguments e).expr.Fits planner.dialect []) :
    planner.prepare? o arguments e = some (planner.prepare arguments e) := by
  rw [prepare?, hkey.toStatement? o, hstatement.toStatement? o]
  rfl

end QueryExpr
