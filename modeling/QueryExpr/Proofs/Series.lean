import QueryExpr.Proofs.Overflow

/-!
# Statements on one parameter list

Rendered one after the other onto one parameter list, every expression numbers its constants behind
its own arguments and behind what is on the list when its turn comes. So in its own text the number
of a constant is used once, and it tells where on the list the value is. Between the texts numbers
may coincide, and they do exactly if the constants of one expression are numbered in a range that
the numbers of another one meet.
-/

namespace QueryExpr

namespace Slot

theorem mem_numbers {before n : Nat} {slots : List Slot} :
    n ∈ numbers before slots ↔
      before < n ∧ n ≤ before + (slots.filterMap constant?).length ∨
        ∃ m, argument m ∈ slots ∧ n = m + 1 := by
  induction slots generalizing before with
  | nil => simp [numbers]
  | cons a slots ih =>
      cases a with
      | argument position =>
          have hconstants : (argument position :: slots).filterMap constant? =
              slots.filterMap constant? := rfl
          simp only [numbers, List.mem_cons, ih, hconstants, argument.injEq]
          constructor
          · rintro (rfl | hrange | ⟨m, hm, hn⟩)
            · exact Or.inr ⟨position, Or.inl rfl, rfl⟩
            · exact Or.inl hrange
            · exact Or.inr ⟨m, Or.inr hm, hn⟩
          · rintro (hrange | ⟨m, rfl | hm, hn⟩)
            · exact Or.inr (Or.inl hrange)
            · exact Or.inl hn
            · exact Or.inr (Or.inr ⟨m, hm, hn⟩)
      | constant v =>
          have hconstants : ((constant v :: slots).filterMap constant?).length =
              (slots.filterMap constant?).length + 1 := rfl
          simp only [numbers, List.mem_cons, ih, hconstants, reduceCtorEq, false_or]
          constructor
          · rintro (rfl | hrange | hargument)
            · left
              omega
            · left
              omega
            · exact Or.inr hargument
          · rintro (hrange | hargument)
            · by_cases hn : n = before + 1
              · exact Or.inl hn
              · right
                left
                omega
            · exact Or.inr (Or.inr hargument)

end Slot

/-- An expression that is rendered when so many parameters are on the list. -/
structure Turn where
  expr : Expr
  listed : Nat

namespace Turn

def constants (t : Turn) : List Value := t.expr.slots.filterMap Slot.constant?

/-- The last number in front of those of the constants. -/
def taken (t : Turn) : Nat := t.expr.argumentCount + t.listed

/-- The numbers of the placeholders, from left to right. -/
def numbers (t : Turn) : List Nat := Slot.numbers t.taken t.expr.slots

/-- The number of one of the constants. -/
def Binds (t : Turn) (n : Nat) : Prop := t.taken < n ∧ n ≤ t.taken + t.constants.length

/-- The number of one of the arguments. -/
def Reaches (t : Turn) (n : Nat) : Prop := ∃ m, .argument m ∈ t.expr.slots ∧ n = m + 1

/-- The numbers of the constants are none of the numbers of the other expression. -/
def Avoids (t u : Turn) : Prop := ∀ n, t.Binds n → ¬ u.Binds n ∧ ¬ u.Reaches n

section Numbers

variable {t u : Turn} {n a b : Nat} {v : Value}

theorem mem_numbers : n ∈ t.numbers ↔ t.Binds n ∨ t.Reaches n := Slot.mem_numbers

theorem getElem?_numbers (h : t.expr.slots[a]? = some (.constant v)) :
    t.numbers[a]? = some (t.expr.argumentCount +
      (t.listed + Slot.constantsBefore t.expr.slots a) + 1) := by
  rw [numbers, Slot.getElem?_numbers_constant _ h, taken, Nat.add_assoc, Nat.add_assoc,
    Nat.add_assoc]

theorem binds_iff :
    t.Binds n ↔ ∃ (a : Nat) (v : Value), t.expr.slots[a]? = some (.constant v) ∧
      t.numbers[a]? = some n := by
  constructor
  · rintro ⟨hlow, hhigh⟩
    have hindex : n - (t.taken + 1) < t.constants.length := by omega
    obtain ⟨a, ha, hbefore⟩ := Slot.exists_constant (List.getElem?_eq_getElem hindex)
    refine ⟨a, _, ha, ?_⟩
    rw [getElem?_numbers ha, hbefore, taken]
    rw [taken] at hlow
    congr 1
    omega
  · rintro ⟨a, v, ha, hn⟩
    rw [getElem?_numbers ha, Option.some.injEq] at hn
    have hconstant : t.constants[Slot.constantsBefore t.expr.slots a]? = some v :=
      Slot.getElem?_constants ha
    obtain ⟨hlt, -⟩ := List.getElem?_eq_some_iff.mp hconstant
    rw [Binds, taken]
    omega

theorem getElem?_numbers_ne (h : t.expr.slots[a]? = some (.constant v)) (hab : b ≠ a) :
    t.numbers[b]? ≠ t.numbers[a]? := by
  apply Slot.getElem?_numbers_ne _ h hab
  intro n hn
  exact Nat.lt_add_right _ (Expr.lt_argumentCount hn)

theorem avoids_of_argumentCount_eq (hcount : t.expr.argumentCount = u.expr.argumentCount)
    (hlisted : t.listed + t.constants.length ≤ u.listed) : t.Avoids u ∧ u.Avoids t := by
  have hreaches : ∀ (t u : Turn) (n : Nat), t.expr.argumentCount = u.expr.argumentCount →
      t.Binds n → ¬ u.Reaches n := by
    rintro t u n hcount ⟨hlow, -⟩ ⟨m, hm, rfl⟩
    have hlt := Expr.lt_argumentCount hm
    rw [taken] at hlow
    omega
  have hbinds : ∀ n, t.Binds n → ¬ u.Binds n := by
    rintro n ⟨-, hhigh⟩ ⟨hlow, -⟩
    rw [taken] at hlow hhigh
    omega
  constructor
  · exact fun n hn => ⟨hbinds n hn, hreaches t u n hcount hn⟩
  · exact fun n hn => ⟨fun ht => hbinds n ht hn, hreaches u t n hcount.symm hn⟩

end Numbers

end Turn

namespace Expr

/-- Every expression with what is on the list when its turn comes. -/
def turns (listed : Nat) : List Expr → List Turn
  | [] => []
  | e :: es => ⟨e, listed⟩ :: turns (listed + (e.slots.filterMap Slot.constant?).length) es

section Turns

theorem map_expr_turns (listed : Nat) (es : List Expr) :
    (turns listed es).map Turn.expr = es := by
  induction es generalizing listed with
  | nil => rfl
  | cons e es ih => rw [turns, List.map_cons, ih]

theorem listed_le_of_mem {listed : Nat} {es : List Expr} {t : Turn} (h : t ∈ turns listed es) :
    listed ≤ t.listed := by
  induction es generalizing listed with
  | nil => cases h
  | cons e es ih =>
      rcases List.mem_cons.mp h with rfl | h
      · exact Nat.le_refl _
      · exact Nat.le_trans (Nat.le_add_right _ _) (ih h)

/-- What an expression binds is on the list when the later ones have their turn. -/
theorem pairwise_turns (listed : Nat) (es : List Expr) :
    (turns listed es).Pairwise fun t u => t.listed + t.constants.length ≤ u.listed := by
  induction es generalizing listed with
  | nil => exact List.Pairwise.nil
  | cons e es ih => exact List.pairwise_cons.mpr ⟨fun u hu => listed_le_of_mem hu, ih _⟩

variable {dialect : Dialect}

theorem placeholders_toStatements (hdialect : dialect = .postgresql ∨ dialect = .sqlite)
    (parameters : List Value) (es : List Expr) :
    (toStatements dialect parameters es).1.map dialect.placeholders =
      (turns parameters.length es).map fun t => t.numbers.map some := by
  have hbinds : dialect ≠ .canonical := Dialect.ne_canonical_of_numbered hdialect
  induction es generalizing parameters with
  | nil => rfl
  | cons e es ih =>
      have hfirst := placeholders_toStatement hbinds parameters e
      rw [Dialect.shownNumber_of_numbered hdialect] at hfirst
      rw [toStatements, turns, List.map_cons, List.map_cons, ih, hfirst,
        parameters_toStatement hbinds, List.length_append]
      rfl

/-- What is on the list stays there, and the constants of an expression stand where its turn was. -/
theorem parameters_toStatements (hdialect : dialect ≠ .canonical) (parameters : List Value)
    (es : List Expr) :
    parameters <+: (toStatements dialect parameters es).2 ∧
      ∀ t ∈ turns parameters.length es, ∀ (k : Nat) (v : Value), t.constants[k]? = some v →
        (toStatements dialect parameters es).2[t.listed + k]? = some v := by
  induction es generalizing parameters with
  | nil => exact ⟨List.prefix_refl _, nofun⟩
  | cons e es ih =>
      have hparameters : (e.toStatement dialect parameters).parameters =
          parameters ++ e.slots.filterMap Slot.constant? := parameters_toStatement hdialect _ e
      obtain ⟨hlisted, hrest⟩ := ih (e.toStatement dialect parameters).parameters
      rw [toStatements]
      refine ⟨?_, fun t ht k v hk => ?_⟩
      · apply List.IsPrefix.trans _ hlisted
        rw [hparameters]
        exact List.prefix_append _ _
      · rcases List.mem_cons.mp ht with rfl | ht
        · obtain ⟨after, hafter⟩ := hlisted
          have hlength : k < (e.slots.filterMap Slot.constant?).length :=
            (List.getElem?_eq_some_iff.mp hk).1
          dsimp only
          rw [← hafter, hparameters, List.append_assoc,
            List.getElem?_append_right (Nat.le_add_right _ _), Nat.add_sub_cancel_left,
            List.getElem?_append_left hlength]
          exact hk
        · apply hrest t _ k v hk
          rw [hparameters, List.length_append]
          exact ht

end Turns

/-- The number of the placeholder at the given place in one of the texts, as a reader sees it. -/
def numberAt (dialect : Dialect) (texts : List String) (i a : Nat) : Option (Option Nat) :=
  texts[i]?.bind fun text => (dialect.placeholders text)[a]?

/-- Every constant has a number that no other placeholder in the texts has. -/
def KeptApart (dialect : Dialect) (texts : List String) (es : List Expr) : Prop :=
  ∀ (i a : Nat) (e : Expr) (v : Value), es[i]? = some e → e.slots[a]? = some (.constant v) →
    ∃ n, numberAt dialect texts i a = some (some n) ∧
      ∀ j b, (j, b) ≠ (i, a) → numberAt dialect texts j b ≠ some (some n)

section Numbers

variable {dialect : Dialect} {parameters : List Value} {es : List Expr}

theorem exists_turn (listed : Nat) {i : Nat} {e : Expr} (h : es[i]? = some e) :
    ∃ t, (turns listed es)[i]? = some t ∧ t.expr = e := by
  rw [← map_expr_turns listed es, List.getElem?_map, Option.map_eq_some_iff] at h
  exact h

theorem numberAt_eq_some (hdialect : dialect = .postgresql ∨ dialect = .sqlite) {i a n : Nat} :
    numberAt dialect (toStatements dialect parameters es).1 i a = some (some n) ↔
      ∃ t, (turns parameters.length es)[i]? = some t ∧ t.numbers[a]? = some n := by
  have hread : (toStatements dialect parameters es).1[i]?.map dialect.placeholders =
      (turns parameters.length es)[i]?.map fun t => t.numbers.map some := by
    rw [← List.getElem?_map, placeholders_toStatements hdialect, List.getElem?_map]
  have hbind : numberAt dialect (toStatements dialect parameters es).1 i a =
      ((toStatements dialect parameters es).1[i]?.map dialect.placeholders).bind (·[a]?) := by
    rw [numberAt, Option.bind_map]
    rfl
  rw [hbind, hread, Option.bind_map, Option.bind_eq_some_iff]
  simp only [Function.comp_apply, List.getElem?_map, Option.map_eq_some_iff, Option.some.injEq,
    exists_eq_right]

/-- Texts that keep the constants apart are written by expressions that avoid each other. -/
private theorem avoids_of_keptApart (hdialect : dialect = .postgresql ∨ dialect = .sqlite)
    (h : KeptApart dialect (toStatements dialect parameters es).1 es) {i j : Nat} {t u : Turn}
    (ht : (turns parameters.length es)[i]? = some t)
    (hu : (turns parameters.length es)[j]? = some u) (hij : j ≠ i) : t.Avoids u := by
  intro n hn
  obtain ⟨a, v, ha, hnumber⟩ := Turn.binds_iff.mp hn
  have he : es[i]? = some t.expr := by
    rw [← map_expr_turns parameters.length es, List.getElem?_map, ht]
    rfl
  obtain ⟨n', hn', hother⟩ := h i a t.expr v he ha
  obtain ⟨t', ht', hnumber'⟩ := (numberAt_eq_some hdialect).mp hn'
  rw [ht, Option.some.injEq] at ht'
  subst ht'
  rw [hnumber, Option.some.injEq] at hnumber'
  subst hnumber'
  have hnone : n ∉ u.numbers := by
    intro hmem
    obtain ⟨b, hb⟩ := List.mem_iff_getElem?.mp hmem
    exact hother j b (by simp [hij]) ((numberAt_eq_some hdialect).mpr ⟨u, hu, hb⟩)
  rw [Turn.mem_numbers, not_or] at hnone
  exact hnone

private theorem keptApart_of_pairwise (hdialect : dialect = .postgresql ∨ dialect = .sqlite)
    (h : (turns parameters.length es).Pairwise fun t u => t.Avoids u ∧ u.Avoids t) :
    KeptApart dialect (toStatements dialect parameters es).1 es := by
  intro i a e v he ha
  obtain ⟨t, ht, rfl⟩ := exists_turn parameters.length he
  have hnumber := Turn.getElem?_numbers ha
  refine ⟨_, (numberAt_eq_some hdialect).mpr ⟨t, ht, hnumber⟩, fun j b hjb hsame => ?_⟩
  obtain ⟨u, hu, hb⟩ := (numberAt_eq_some hdialect).mp hsame
  by_cases hji : j = i
  · rw [hji, ht, Option.some.injEq] at hu
    subst hu
    have hba : b ≠ a := fun hba => hjb (by rw [hji, hba])
    exact Turn.getElem?_numbers_ne ha hba (hb.trans hnumber.symm)
  · have havoids : t.Avoids u := by
      obtain ⟨hi, rfl⟩ := List.getElem?_eq_some_iff.mp ht
      obtain ⟨hj, rfl⟩ := List.getElem?_eq_some_iff.mp hu
      rcases Nat.lt_or_gt_of_ne hji with hlt | hgt
      · exact (List.pairwise_iff_getElem.mp h j i hj hi hlt).2
      · exact (List.pairwise_iff_getElem.mp h i j hi hj hgt).1
    have hnone := havoids _ (Turn.binds_iff.mpr ⟨a, v, ha, hnumber⟩)
    rcases Turn.mem_numbers.mp (List.mem_of_getElem? hb) with hbinds | hreaches
    · exact hnone.1 hbinds
    · exact hnone.2 hreaches

theorem toStatements_keptApart (hdialect : dialect = .postgresql ∨ dialect = .sqlite)
    (parameters : List Value) (es : List Expr) :
    let written := toStatements dialect parameters es
    (∀ (i a : Nat) (e : Expr) (v : Value),
      es[i]? = some e → e.slots[a]? = some (.constant v) →
        ∃ k, numberAt dialect written.1 i a = some (some (e.argumentCount + k + 1)) ∧
          written.2[k]? = some v ∧
          ∀ b ≠ a, numberAt dialect written.1 i b ≠ some (some (e.argumentCount + k + 1))) ∧
      (KeptApart dialect written.1 es ↔
        (turns parameters.length es).Pairwise fun t u => t.Avoids u ∧ u.Avoids t) ∧
      ∀ count, (∀ e ∈ es, e.argumentCount = count) → KeptApart dialect written.1 es := by
  intro written
  have hbinds : dialect ≠ .canonical := Dialect.ne_canonical_of_numbered hdialect
  refine ⟨fun i a e v he ha => ?_, ⟨fun h => ?_, keptApart_of_pairwise hdialect⟩,
    fun count hcount => keptApart_of_pairwise hdialect ?_⟩
  · obtain ⟨t, ht, rfl⟩ := exists_turn parameters.length he
    have hnumber := Turn.getElem?_numbers ha
    refine ⟨t.listed + Slot.constantsBefore t.expr.slots a,
      (numberAt_eq_some hdialect).mpr ⟨t, ht, hnumber⟩, ?_, fun b hb hsame => ?_⟩
    · exact (parameters_toStatements hbinds parameters es).2 t (List.mem_of_getElem? ht) _ v
        (Slot.getElem?_constants ha)
    · obtain ⟨u, hu, hother⟩ := (numberAt_eq_some hdialect).mp hsame
      rw [ht, Option.some.injEq] at hu
      subst hu
      exact Turn.getElem?_numbers_ne ha hb (hother.trans hnumber.symm)
  · rw [List.pairwise_iff_getElem]
    intro i j hi hj hij
    have ht := List.getElem?_eq_getElem hi
    have hu := List.getElem?_eq_getElem hj
    exact ⟨avoids_of_keptApart hdialect h ht hu (Nat.ne_of_gt hij),
      avoids_of_keptApart hdialect h hu ht (Nat.ne_of_lt hij)⟩
  · have hcounts : ∀ t ∈ turns parameters.length es, t.expr.argumentCount = count := by
      intro t ht
      apply hcount
      rw [← map_expr_turns parameters.length es]
      exact List.mem_map_of_mem ht
    exact (pairwise_turns parameters.length es).imp_of_mem fun ht hu hlisted =>
      Turn.avoids_of_argumentCount_eq ((hcounts _ ht).trans (hcounts _ hu).symm) hlisted

end Numbers

/-- Every number written is a word, whichever expression has its turn. -/
def AllFit (dialect : Dialect) : List Value → List Expr → Prop
  | _, [] => True
  | parameters, e :: es =>
      e.Fits dialect parameters ∧ AllFit dialect (e.toStatement dialect parameters).parameters es

instance decidableAllFit (dialect : Dialect) :
    ∀ (parameters : List Value) (es : List Expr), Decidable (AllFit dialect parameters es)
  | _, [] => inferInstanceAs (Decidable True)
  | parameters, e :: es =>
      have := decidableAllFit dialect (e.toStatement dialect parameters).parameters es
      inferInstanceAs (Decidable (e.Fits dialect parameters ∧
        AllFit dialect (e.toStatement dialect parameters).parameters es))

section Words

variable {dialect : Dialect} {parameters : List Value} {es : List Expr}

theorem AllFit.toStatements? (h : AllFit dialect parameters es) (o : Overflow) :
    toStatements? o dialect parameters es = some (toStatements dialect parameters es) := by
  induction es generalizing parameters with
  | nil => rfl
  | cons e es ih =>
      rw [Expr.toStatements?, h.1.toStatement? o]
      change (Expr.toStatements? o dialect (e.toStatement dialect parameters).parameters es >>= _) =
        _
      rw [ih h.2]
      rfl

theorem AllFit.argumentCount? (h : AllFit dialect parameters es) (o : Overflow) :
    ∀ e ∈ es, e.argumentCount? o = some e.argumentCount := by
  induction es generalizing parameters with
  | nil => exact nofun
  | cons e es ih => exact List.forall_mem_cons.mpr ⟨h.1.argumentCount? o, ih h.2⟩

/--
As long as all numbers are words, a constant has a number of its own in its own text, and the number
finds its value on the list. Over all texts the numbers of constants are kept apart exactly if no
expression numbers its constants where another one has its numbers, as is the case behind equally
many arguments.
-/
theorem toStatements?_keptApart_iff (o : Overflow)
    (hdialect : dialect = .postgresql ∨ dialect = .sqlite)
    (hfits : AllFit dialect parameters es) :
    (∀ e ∈ es, e.argumentCount? o = some e.argumentCount) ∧
    ∃ written, toStatements? o dialect parameters es = some written ∧
      (∀ (i a : Nat) (e : Expr) (v : Value),
        es[i]? = some e → e.slots[a]? = some (.constant v) →
          ∃ k, numberAt dialect written.1 i a = some (some (e.argumentCount + k + 1)) ∧
            written.2[k]? = some v ∧
            ∀ b ≠ a, numberAt dialect written.1 i b ≠ some (some (e.argumentCount + k + 1))) ∧
      (KeptApart dialect written.1 es ↔
        (turns parameters.length es).Pairwise fun t u => t.Avoids u ∧ u.Avoids t) ∧
      ∀ count, (∀ e ∈ es, e.argumentCount = count) → KeptApart dialect written.1 es :=
  ⟨hfits.argumentCount? o, _, hfits.toStatements? o, toStatements_keptApart hdialect parameters es⟩

end Words

/-- Two filters on the same argument. -/
def twoFilters : List Expr :=
  [.cmp .eq (.arg 0) (.val (.i64 5)),
    .and [.cmp .lt (.col "x" .i64) (.val (.i64 7)), .isNull false (.arg 0)]]

theorem toStatements?_keptApart_iff_twoFilters :
    AllFit .sqlite [] twoFilters ∧
      ∃ written, toStatements? .stops .sqlite [] twoFilters = some written ∧
        written = (["?1 = ?2", "(\x22x\x22 < ?3) AND (?1 IS NULL)"], [.i64 5, .i64 7]) ∧
        KeptApart .sqlite written.1 twoFilters := by
  have hfits : AllFit .sqlite [] twoFilters := by decide
  obtain ⟨-, written, hwritten, -, -, hcount⟩ :=
    toStatements?_keptApart_iff .stops (Or.inr rfl) hfits
  refine ⟨hfits, written, hwritten, ?_, hcount 1 (by decide)⟩
  rw [hfits.toStatements? .stops, Option.some.injEq] at hwritten
  exact hwritten.symm

/-- The number of a constant is met by an argument of another text, by another constant, or, where
it is no word, by an argument of its own text. -/
theorem toStatements?_not_keptApart :
    (∀ o : Overflow, toStatements? o .sqlite [] [.val (.i64 5), .arg 0] =
        some (["?1", "?1"], [.i64 5]) ∧
      toStatements? o .sqlite [] [.cmp .eq (.arg 0) (.val (.i64 5)), .val (.i64 7)] =
        some (["?1 = ?2", "?2"], [.i64 5, .i64 7])) ∧
      ¬ KeptApart .sqlite ["?1", "?1"] [.val (.i64 5), .arg 0] ∧
      ¬ KeptApart .sqlite ["?1 = ?2", "?2"] [.cmp .eq (.arg 0) (.val (.i64 5)), .val (.i64 7)] ∧
      toStatements? .stops .sqlite [] [farComparisons] = none ∧
      toStatements? .wraps .sqlite [] [farComparisons] =
        some (["(?18446744073709551615 = ?0) AND (?1 = ?1)"], [.i64 5, .i64 7]) ∧
      ¬ KeptApart .sqlite ["(?18446744073709551615 = ?0) AND (?1 = ?1)"] [farComparisons] ∧
      ∀ o : Overflow, ¬ ∀ (dialect : Dialect) (es : List Expr),
        dialect = .postgresql ∨ dialect = .sqlite →
          ∃ written, toStatements? o dialect [] es = some written ∧
            KeptApart dialect written.1 es := by
  have hargument : ¬ KeptApart .sqlite ["?1", "?1"] [.val (.i64 5), .arg 0] := by
    intro h
    obtain ⟨n, hn, hother⟩ := h 0 0 _ (.i64 5) rfl rfl
    exact hother 1 0 (by decide) hn
  have hconstant : ¬ KeptApart .sqlite ["?1 = ?2", "?2"]
      [.cmp .eq (.arg 0) (.val (.i64 5)), .val (.i64 7)] := by
    intro h
    obtain ⟨n, hn, hother⟩ := h 1 0 _ (.i64 7) rfl rfl
    exact hother 0 1 (by decide) hn
  have hown : ¬ KeptApart .sqlite ["(?18446744073709551615 = ?0) AND (?1 = ?1)"]
      [farComparisons] := by
    intro h
    obtain ⟨n, hn, hother⟩ := h 0 3 _ (.i64 7) rfl rfl
    exact hother 0 2 (by decide) hn
  have htexts : ∀ o : Overflow, toStatements? o .sqlite [] [.val (.i64 5), .arg 0] =
      some (["?1", "?1"], [.i64 5]) := by
    intro o
    cases o <;> rfl
  refine ⟨fun o => ⟨htexts o, by cases o <;> rfl⟩, hargument, hconstant, rfl, rfl, hown,
    fun o h => ?_⟩
  obtain ⟨written, hwritten, hkept⟩ := h .sqlite [.val (.i64 5), .arg 0] (Or.inr rfl)
  rw [htexts o, Option.some.injEq] at hwritten
  subst hwritten
  exact hargument hkept

end Expr

end QueryExpr
