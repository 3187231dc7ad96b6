import QueryExpr.Double.Layout
import QueryExpr.Proofs.Shortest

/-!
# Literals of doubles

Reading the literal of a finite double from the left gives its sign and a number that rounds to it.
So two finite doubles with the same literal are the same, down to the sign of zero.
-/

namespace QueryExpr

namespace Double

theorem canonical_of_reading {x : Double} {negative : Bool} {m : Nat} {q : Int}
    (h : x.reading = .finite negative m q) : Canonical m q := by
  have hmagnitude : x.magnitude < signWeight := Nat.mod_lt _ (by decide)
  have hfraction : x.magnitude % exponentWeight < exponentWeight := Nat.mod_lt _ (by decide)
  simp only [signWeight, exponentWeight] at hmagnitude hfraction
  unfold reading at h
  dsimp only at h
  split at h
  · split at h <;> cases h
  · split at h <;> cases h <;> simp only [exponentWeight] at *
    · exact ⟨by omega, by omega, Or.inr rfl⟩
    · exact ⟨by omega, by omega, Or.inl (by omega)⟩

/-- A finite number is counted off from zero, in steps that double with the exponent. -/
theorem magnitude_of_reading {x : Double} {negative : Bool} {m : Nat} {q : Int}
    (h : x.reading = .finite negative m q) :
    x.isNegative = negative ∧ x.magnitude = (q + 1074).toNat * exponentWeight + m := by
  have hsplit := Nat.div_add_mod x.magnitude exponentWeight
  unfold reading at h
  dsimp only at h
  split at h
  · split at h <;> cases h
  · split at h <;> cases h <;> refine ⟨rfl, ?_⟩ <;> simp only [exponentWeight] at * <;> omega

theorem eq_of_magnitude {x y : Double} (hsign : x.isNegative = y.isNegative)
    (hmagnitude : x.magnitude = y.magnitude) : x = y := by
  have hbits : x.bits.toNat = y.bits.toNat := by
    have hxlt := x.bits.toNat_lt
    have hylt := y.bits.toNat_lt
    have hle : signWeight ≤ x.bits.toNat ↔ signWeight ≤ y.bits.toNat := decide_eq_decide.mp hsign
    simp only [magnitude, signWeight] at hmagnitude hle
    omega
  cases x
  cases y
  exact congrArg Double.mk (UInt64.toNat_inj.mp hbits)

theorem eq_of_reading {x y : Double} {negative : Bool} {m : Nat} {q : Int}
    (hx : x.reading = .finite negative m q) (hy : y.reading = .finite negative m q) : x = y := by
  obtain ⟨hxsign, hxmagnitude⟩ := magnitude_of_reading hx
  obtain ⟨hysign, hymagnitude⟩ := magnitude_of_reading hy
  exact eq_of_magnitude (hxsign.trans hysign.symm) (hxmagnitude.trans hymagnitude.symm)

theorem magnitude_of_infinite {x : Double} {negative : Bool}
    (h : x.reading = .infinite negative) :
    x.isNegative = negative ∧ x.magnitude = infinityMagnitude := by
  have hsplit := Nat.div_add_mod x.magnitude exponentWeight
  unfold reading at h
  dsimp only at h
  split at h
  · split at h <;> cases h
    refine ⟨rfl, ?_⟩
    simp only [infinityMagnitude, exponentWeight] at *
    omega
  · split at h <;> cases h

theorem eq_of_infinite {x y : Double} {negative : Bool} (hx : x.reading = .infinite negative)
    (hy : y.reading = .infinite negative) : x = y := by
  obtain ⟨hxsign, hxmagnitude⟩ := magnitude_of_infinite hx
  obtain ⟨hysign, hymagnitude⟩ := magnitude_of_infinite hy
  exact eq_of_magnitude (hxsign.trans hysign.symm) (hxmagnitude.trans hymagnitude.symm)

end Double

/--
What has been read of a numeral: its sign, its digits, how many of them are behind the point, and
the sign and the digits of its exponent.
-/
structure Numeral where
  negative : Bool
  significand : Nat
  fraction : Option Nat
  exponent : Option (Bool × Nat)

namespace Numeral

open Double (RoundsTo)

def empty : Numeral := ⟨false, 0, none, none⟩

def readSign (s : Numeral) : Numeral :=
  match s.exponent with
  | none => { s with negative := true }
  | some (_, n) => { s with exponent := some (true, n) }

def readDigit (s : Numeral) (digit : Nat) : Numeral :=
  match s.exponent with
  | none => { s with significand := 10 * s.significand + digit, fraction := s.fraction.map (· + 1) }
  | some (negative, n) => { s with exponent := some (negative, 10 * n + digit) }

def step (s : Numeral) (c : Char) : Numeral :=
  if c = '-' then s.readSign
  else if c = '.' then { s with fraction := some 0 }
  else if c = 'e' then { s with exponent := some (false, 0) }
  else s.readDigit (c.toNat - '0'.toNat)

def run (s : Numeral) (text : List Char) : Numeral := text.foldl step s

def scale (s : Numeral) : Int :=
  (s.exponent.elim 0 fun e => if e.1 then -(e.2 : Int) else e.2) - (s.fraction.getD 0 : Nat)

/-- The absolute value of the numeral. -/
def value (s : Numeral) : ℚ := s.significand * 10 ^ s.scale

theorem run_append (s : Numeral) (text rest : List Char) :
    s.run (text ++ rest) = (s.run text).run rest := List.foldl_append

theorem run_cons (s : Numeral) (c : Char) (text : List Char) :
    s.run (c :: text) = (s.step c).run text := rfl

theorem step_of_isDigit (s : Numeral) {c : Char} (h : c.isDigit = true) :
    s.step c = s.readDigit (c.toNat - '0'.toNat) := by
  have hne : c ≠ '-' ∧ c ≠ '.' ∧ c ≠ 'e' := by
    refine ⟨?_, ?_, ?_⟩ <;> rintro rfl <;> simp at h
  rw [step, if_neg hne.1, if_neg hne.2.1, if_neg hne.2.2]

theorem run_digits {text : List Char} (h : ∀ c ∈ text, c.isDigit = true) (negative : Bool)
    (significand : Nat) (fraction : Option Nat) :
    run ⟨negative, significand, fraction, none⟩ text =
      ⟨negative, Nat.ofDigitChars 10 text significand, fraction.map (· + text.length), none⟩ := by
  induction text generalizing significand fraction with
  | nil => cases fraction <;> rfl
  | cons c text ih =>
      rw [run_cons, step_of_isDigit _ (h c List.mem_cons_self)]
      change run ⟨negative, 10 * significand + (c.toNat - '0'.toNat), fraction.map (· + 1), none⟩
        text = _
      rw [ih fun d hd => h d (List.mem_cons_of_mem c hd), Nat.ofDigitChars_cons]
      cases fraction with
      | none => rfl
      | some n =>
          simp only [Option.map_some, List.length_cons, mk.injEq, Option.some.injEq, true_and,
            and_true]
          omega

theorem run_exponent {text : List Char} (h : ∀ c ∈ text, c.isDigit = true) (s : Numeral)
    (negative : Bool) (n : Nat) :
    run { s with exponent := some (negative, n) } text =
      { s with exponent := some (negative, Nat.ofDigitChars 10 text n) } := by
  induction text generalizing n with
  | nil => rfl
  | cons c text ih =>
      rw [run_cons, step_of_isDigit _ (h c List.mem_cons_self), Nat.ofDigitChars_cons]
      exact ih (fun d hd => h d (List.mem_cons_of_mem c hd)) _

/-- The text is read as a number with the value, and the sign read before it stays. -/
def Denotes (text : List Char) (value : ℚ) : Prop :=
  ∀ negative, (run ⟨negative, 0, none, none⟩ text).negative = negative ∧
    (run ⟨negative, 0, none, none⟩ text).value = value

private theorem isDigit_of_mem_zeros {n : Nat} : ∀ c ∈ Layout.zeros n, c.isDigit = true := by
  intro c hc
  rw [List.eq_of_mem_replicate hc]
  rfl

private theorem ofDigitChars_zeros (n start : Nat) :
    Nat.ofDigitChars 10 (Layout.zeros n) start = 10 ^ n * start := Nat.ofDigitChars_replicate_zero

variable {d : Decimal}

private theorem denotes_below_one (hd : ∀ c ∈ d.digits, c.isDigit = true) (hscale : d.scale ≤ 0) :
    Denotes ('0' :: '.' :: Layout.zeros (-d.scale).toNat ++ d.digits) d.value := by
  intro negative
  have hrun : run ⟨negative, 0, none, none⟩
      ('0' :: '.' :: Layout.zeros (-d.scale).toNat ++ d.digits) =
      ⟨negative, Nat.ofDigitChars 10 d.digits 0,
        some ((-d.scale).toNat + d.digits.length), none⟩ := by
    change run ⟨negative, 0, some 0, none⟩ (Layout.zeros _ ++ d.digits) = _
    rw [run_digits (List.forall_mem_append.mpr ⟨isDigit_of_mem_zeros, hd⟩),
      Nat.ofDigitChars_append, ofDigitChars_zeros]
    simp [Layout.zeros]
  rw [hrun]
  refine ⟨rfl, ?_⟩
  simp only [value, scale, Option.elim_none, Option.getD_some, Decimal.value]
  congr 2
  omega

private theorem denotes_whole (hd : ∀ c ∈ d.digits, c.isDigit = true) {n : Nat}
    (hscale : d.scale = d.digits.length + n) :
    Denotes (d.digits ++ Layout.zeros n ++ ['.', '0']) d.value := by
  intro negative
  have hrun : run ⟨negative, 0, none, none⟩ (d.digits ++ Layout.zeros n ++ ['.', '0']) =
      ⟨negative, 10 * (10 ^ n * Nat.ofDigitChars 10 d.digits 0), some 1, none⟩ := by
    rw [run_append, run_append, run_digits hd, run_digits isDigit_of_mem_zeros,
      ofDigitChars_zeros]
    rfl
  rw [hrun]
  refine ⟨rfl, ?_⟩
  have hexponent : d.scale - d.digits.length = n := by omega
  simp only [value, scale, Option.elim_none, Option.getD_some, Decimal.value, hexponent,
    zpow_natCast]
  norm_num
  ring

private theorem denotes_with_fraction (hd : ∀ c ∈ d.digits, c.isDigit = true) {n : Nat}
    (hscale : d.scale = n) (hn : n < d.digits.length) :
    Denotes (d.digits.take n ++ '.' :: d.digits.drop n) d.value := by
  intro negative
  have hrun : run ⟨negative, 0, none, none⟩ (d.digits.take n ++ '.' :: d.digits.drop n) =
      ⟨negative, Nat.ofDigitChars 10 d.digits 0, some (d.digits.length - n), none⟩ := by
    rw [run_append, run_digits fun c hc => hd c (List.mem_of_mem_take hc)]
    change run ⟨negative, _, some 0, none⟩ (d.digits.drop n) = _
    rw [run_digits fun c hc => hd c (List.mem_of_mem_drop hc), ← Nat.ofDigitChars_append,
      List.take_append_drop, List.length_drop]
    simp
  rw [hrun]
  refine ⟨rfl, ?_⟩
  simp only [value, scale, Option.elim_none, Option.getD_some, Decimal.value]
  congr 2
  omega

theorem denotes_positional (hd : ∀ c ∈ d.digits, c.isDigit = true) :
    Denotes (Layout.literal.positional d) d.value := by
  unfold Layout.positional
  split
  · exact denotes_below_one hd ‹_›
  · split
    · exact denotes_whole hd (by omega)
    · exact denotes_with_fraction hd (by omega) (by omega)

private theorem run_mark (s : Numeral) (e : Int) :
    run s ('e' :: (if e < 0 then ['-'] else []) ++ Nat.toDigits 10 e.natAbs) =
      { s with exponent := some (decide (e < 0), e.natAbs) } := by
  have hdigits : ∀ c ∈ Nat.toDigits 10 e.natAbs, c.isDigit = true :=
    fun c hc => Nat.isDigit_of_mem_toDigits (by decide) (by decide) hc
  have hrun : run s ('e' :: (if e < 0 then ['-'] else []) ++ Nat.toDigits 10 e.natAbs) =
      run { s with exponent := some (decide (e < 0), 0) } (Nat.toDigits 10 e.natAbs) := by
    split
    · rename_i hneg
      rw [decide_eq_true hneg]
      rfl
    · rename_i hneg
      rw [decide_eq_false hneg]
      rfl
  rw [hrun, run_exponent hdigits, Nat.ofDigitChars_ten_toDigits]

private theorem run_significand {c : Char} {rest : List Char} (hc : c.isDigit = true)
    (hrest : ∀ c ∈ rest, c.isDigit = true) (negative : Bool) :
    run ⟨negative, 0, none, none⟩ (c :: if rest.isEmpty then [] else '.' :: rest) =
      ⟨negative, Nat.ofDigitChars 10 (c :: rest) 0,
        if rest.isEmpty then none else some rest.length, none⟩ := by
  rw [run_cons, step_of_isDigit _ hc, Nat.ofDigitChars_cons]
  split
  · rename_i hempty
    rw [List.isEmpty_iff.mp hempty]
    rfl
  · change run ⟨negative, _, some 0, none⟩ rest = _
    rw [run_digits hrest]
    simp [readDigit]

theorem denotes_scientific (hd : ∀ c ∈ d.digits, c.isDigit = true) (hne : d.digits ≠ []) :
    Denotes (Layout.literal.scientific d) d.value := by
  intro negative
  obtain ⟨c, rest, hdigits⟩ := List.exists_cons_of_ne_nil hne
  rw [hdigits] at hd
  obtain ⟨hc, hrest⟩ := List.forall_mem_cons.mp hd
  have hrun : run ⟨negative, 0, none, none⟩ (Layout.literal.scientific d) =
      ⟨negative, Nat.ofDigitChars 10 (c :: rest) 0,
        if rest.isEmpty then none else some rest.length,
        some (decide (d.scale - 1 < 0), (d.scale - 1).natAbs)⟩ := by
    have htext : Layout.literal.scientific d =
        (c :: if rest.isEmpty then [] else '.' :: rest) ++
          ('e' :: (if d.scale - 1 < 0 then ['-'] else []) ++
            Nat.toDigits 10 (d.scale - 1).natAbs) := by
      have hplus : Layout.literal.marksPlus = false := rfl
      simp [Layout.scientific, hdigits, hplus]
    rw [htext, run_append, run_significand hc hrest, run_mark]
  rw [hrun]
  refine ⟨rfl, ?_⟩
  have hfraction : (if rest.isEmpty then none else some rest.length).getD 0 = rest.length := by
    split
    · rename_i hempty
      rw [List.isEmpty_iff.mp hempty]
      rfl
    · rfl
  simp only [value, scale, Decimal.value, hdigits, hfraction, Option.elim_some,
    List.length_cons, decide_eq_true_eq]
  congr 2
  split <;> omega

theorem denotes_zero : Denotes ['0', '.', '0'] 0 := by
  intro negative
  refine ⟨rfl, ?_⟩
  simp [value, run, step, readDigit]

/-- The text of a significand and an exponent denotes a number that rounds to them. -/
theorem denotes_writeFinite (m : Nat) (q : Int) :
    ∃ r, Denotes (Layout.literal.writeFinite m q) r ∧ RoundsTo m q r := by
  unfold Layout.writeFinite
  split
  · rename_i hm
    refine ⟨0, denotes_zero, ?_⟩
    have := Double.roundsTo_self m q
    rwa [hm, Nat.cast_zero, zero_mul, ← hm] at this
  · rename_i hm
    have hpos : 0 < m := Nat.pos_of_ne_zero hm
    have hround : RoundsTo m q (Decimal.shortest Layout.literal.tie m q).value :=
      Decimal.shortest_roundsTo hpos q
    have hdigits : ∀ c ∈ (Decimal.shortest Layout.literal.tie m q).digits, c.isDigit = true :=
      fun c hc => Decimal.isDigit_of_mem_shortest hc
    refine ⟨_, ?_, hround⟩
    dsimp only
    split
    · exact denotes_positional hdigits
    · exact denotes_scientific hdigits (Decimal.shortest_ne_nil hpos q)

end Numeral

namespace Layout

open Numeral (Denotes)

theorem toList_write {x : Double} {negative : Bool} {m : Nat} {q : Int}
    (h : x.reading = .finite negative m q) :
    (literal.write x).toList =
      (if negative then ['-'] else []) ++ literal.writeFinite m q := by
  rw [write, h, String.toList_ofList]

theorem write_injective {x y : Double} {negative negative' : Bool} {m n : Nat} {p q : Int}
    (hx : x.reading = .finite negative m p) (hy : y.reading = .finite negative' n q)
    (h : literal.write x = literal.write y) : x = y := by
  have hrun : ∀ (negative : Bool) {text : List Char} {r : ℚ}, Denotes text r →
      (Numeral.empty.run ((if negative then ['-'] else []) ++ text)).negative = negative ∧
        (Numeral.empty.run ((if negative then ['-'] else []) ++ text)).value = r := by
    intro negative text r hr
    cases negative with
    | false => exact hr false
    | true => exact hr true
  obtain ⟨r, hr, hround⟩ := Numeral.denotes_writeFinite m p
  obtain ⟨s, hs, hround'⟩ := Numeral.denotes_writeFinite n q
  have htext := congrArg String.toList h
  rw [toList_write hx, toList_write hy] at htext
  obtain ⟨hsign, hvalue⟩ := hrun negative hr
  rw [htext] at hsign hvalue
  obtain rfl : negative' = negative := (hrun negative' hs).1.symm.trans hsign
  obtain rfl : s = r := (hrun negative' hs).2.symm.trans hvalue
  obtain ⟨rfl, rfl⟩ := hround.unique (Double.canonical_of_reading hx)
    (Double.canonical_of_reading hy) hround'
  exact Double.eq_of_reading hx hy

/-- Digits, signs and marks, of which a digit or a sign comes first and one is a mark. -/
structure IsFractional (text : List Char) : Prop where
  chars : ∀ c ∈ text, c.isDigit = true ∨ c = '-' ∨ c = '.' ∨ c = 'e'
  first : ∃ c ∈ text.head?, c.isDigit = true ∨ c = '-'
  marked : ∃ c ∈ text, c = '.' ∨ c = 'e'

private theorem isFractional_append {whole rest : List Char} (hne : whole ≠ [])
    (hwhole : ∀ c ∈ whole, c.isDigit = true)
    (hrest : ∀ c ∈ rest, c.isDigit = true ∨ c = '-' ∨ c = '.' ∨ c = 'e')
    (hmarked : ∃ c ∈ rest, c = '.' ∨ c = 'e') : IsFractional (whole ++ rest) := by
  refine ⟨List.forall_mem_append.mpr ⟨fun c hc => Or.inl (hwhole c hc), hrest⟩, ?_, ?_⟩
  · obtain ⟨c, cs, rfl⟩ := List.exists_cons_of_ne_nil hne
    exact ⟨c, rfl, Or.inl (hwhole c List.mem_cons_self)⟩
  · obtain ⟨c, hc, hmark⟩ := hmarked
    exact ⟨c, List.mem_append_right whole hc, hmark⟩

private theorem isFractional_positional {d : Decimal} (hd : ∀ c ∈ d.digits, c.isDigit = true)
    (hne : d.digits ≠ []) : IsFractional (literal.positional d) := by
  have hzeros : ∀ n, ∀ c ∈ zeros n, c.isDigit = true := fun n c hc => by
    rw [List.eq_of_mem_replicate hc]
    rfl
  unfold positional
  split
  · change IsFractional (['0'] ++ '.' :: (zeros (-d.scale).toNat ++ d.digits))
    refine isFractional_append (by simp) (by simp) ?_ ⟨'.', by simp, by simp⟩
    simp only [List.mem_cons, List.mem_append]
    rintro c (rfl | hc | hc)
    · exact Or.inr (Or.inr (Or.inl rfl))
    · exact Or.inl (hzeros _ c hc)
    · exact Or.inl (hd c hc)
  · split
    · refine isFractional_append (by simp [hne])
        (List.forall_mem_append.mpr ⟨hd, hzeros _⟩) ?_ ⟨'.', by simp [literal], by simp⟩
      simp [literal]
    · refine isFractional_append ?_ (fun c hc => hd c (List.mem_of_mem_take hc)) ?_
        ⟨'.', by simp, by simp⟩
      · rw [Ne, List.take_eq_nil_iff, not_or]
        exact ⟨by omega, hne⟩
      · simp only [List.mem_cons]
        rintro c (rfl | hc)
        · exact Or.inr (Or.inr (Or.inl rfl))
        · exact Or.inl (hd c (List.mem_of_mem_drop hc))

private theorem isFractional_scientific {d : Decimal} (hd : ∀ c ∈ d.digits, c.isDigit = true)
    (hne : d.digits ≠ []) : IsFractional (literal.scientific d) := by
  unfold scientific
  dsimp only
  rw [List.append_assoc, List.append_assoc]
  refine isFractional_append ?_ (fun c hc => hd c (List.mem_of_mem_take hc)) ?_
    ⟨'e', by simp, by simp⟩
  · simpa using hne
  · intro c hc
    rcases List.mem_append.mp hc with hc | hc
    · split at hc
      · cases hc
      · rcases List.mem_cons.mp hc with rfl | hc
        · exact Or.inr (Or.inr (Or.inl rfl))
        · exact Or.inl (hd c (List.mem_of_mem_drop hc))
    · rcases List.mem_append.mp hc with hc | hc
      · rcases List.mem_cons.mp hc with rfl | hc
        · exact Or.inr (Or.inr (Or.inr rfl))
        · split at hc
          · exact Or.inr (Or.inl (List.mem_singleton.mp hc))
          · cases hc
      · exact Or.inl (Nat.isDigit_of_mem_toDigits (by decide) (by decide) hc)

theorem isFractional_write {x : Double} {negative : Bool} {m : Nat} {q : Int}
    (h : x.reading = .finite negative m q) : IsFractional (literal.write x).toList := by
  have hunsigned : IsFractional (literal.writeFinite m q) := by
    unfold writeFinite
    split
    · change IsFractional ['0', '.', '0']
      exact ⟨by simp, ⟨'0', rfl, by simp⟩, ⟨'.', by simp, by simp⟩⟩
    · rename_i hm
      have hpos : 0 < m := Nat.pos_of_ne_zero hm
      have hne : (Decimal.shortest literal.tie m q).digits ≠ [] :=
        Decimal.shortest_ne_nil hpos q
      have hd : ∀ c ∈ (Decimal.shortest literal.tie m q).digits, c.isDigit = true :=
        fun c hc => Decimal.isDigit_of_mem_shortest hc
      dsimp only
      split
      · exact isFractional_positional hd hne
      · exact isFractional_scientific hd hne
  rw [toList_write h]
  cases negative with
  | false => exact hunsigned
  | true =>
      refine ⟨List.forall_mem_append.mpr ⟨by simp, hunsigned.chars⟩, ⟨'-', rfl, Or.inr rfl⟩, ?_⟩
      obtain ⟨c, hc, hmark⟩ := hunsigned.marked
      exact ⟨c, List.mem_append_right _ hc, hmark⟩

end Layout

end QueryExpr
