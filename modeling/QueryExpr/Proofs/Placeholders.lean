import QueryExpr.Proofs.Slots

/-!
# Placeholders

A reader of a statement finds the placeholders in its text without knowing the expression: it skips
what is quoted and reads the number behind every mark. Of a rendered expression it finds exactly the
placeholders of the slots, in their order and with their numbers, whatever names and constants the
expression is made of.
-/

namespace QueryExpr

namespace Dialect

def placeholderMark : Dialect → Char
  | postgresql => '$'
  | canonical | sqlite | mysql => '?'

/-- Texts and names stand between two of these. -/
def quotes (dialect : Dialect) : List Char := '\x27' :: dialect.nameQuote?.toList

/-- The number a text begins with. -/
def leadingNumber (s : List Char) : Option Nat :=
  match s.takeWhile Char.isDigit with
  | [] => none
  | digits => some (Nat.ofDigitChars 10 digits 0)

/--
Reads the numbers of the placeholders, outside quotations or within the one whose quote is given. A
doubled quote ends a quotation and begins the next one at once.
-/
def scan (dialect : Dialect) : Option Char → List Char → List (Option Nat)
  | _, [] => []
  | some quote, c :: s => scan dialect (if c = quote then none else some quote) s
  | none, c :: s =>
      if c ∈ dialect.quotes then scan dialect (some c) s
      else if c = dialect.placeholderMark then leadingNumber s :: scan dialect none s
      else scan dialect none s

/-- The placeholders of a statement in textual order, each with its number if it has one. -/
def placeholders (dialect : Dialect) (sql : String) : List (Option Nat) :=
  dialect.scan none sql.toList

/-- What the text shows of the number of a placeholder. -/
def shownNumber : Dialect → Nat → Option Nat
  | mysql, _ => none
  | _, number => some number

section Numbered

variable {dialect : Dialect}

theorem ne_canonical_of_numbered (h : dialect = .postgresql ∨ dialect = .sqlite) :
    dialect ≠ .canonical := by
  rcases h with rfl | rfl <;> decide

theorem shownNumber_of_numbered (h : dialect = .postgresql ∨ dialect = .sqlite) :
    dialect.shownNumber = some := by
  rcases h with rfl | rfl <;> rfl

end Numbered

/-- The character is no mark and no quote in any dialect. -/
def isPlain (c : Char) : Bool :=
  c != '?' && c != '$' && c != '\x22' && c != '\x27' && c != '\x60'

/-- No number goes on in this text. -/
def EndsNumber (rest : List Char) : Prop := ∀ c ∈ rest.head?, c.isDigit = false

/-- A text that is fixed in the rendering and ends a number in front of it. -/
def isSeparator (s : String) : Bool :=
  match s.toList with
  | [] => false
  | c :: cs => !c.isDigit && (c :: cs).all isPlain

section Scan

variable {dialect : Dialect}

private theorem scan_cons_of_plain {c : Char} (hc : isPlain c = true) (s : List Char) :
    dialect.scan none (c :: s) = dialect.scan none s := by
  simp only [isPlain, Bool.and_eq_true, bne_iff_ne, ne_eq] at hc
  have hquote : c ∉ dialect.quotes := by cases dialect <;> simp [quotes, nameQuote?, hc]
  have hmark : c ≠ dialect.placeholderMark := by cases dialect <;> simp [placeholderMark, hc]
  rw [scan, if_neg hquote, if_neg hmark]

theorem scan_plain {s : List Char} (hs : ∀ c ∈ s, isPlain c = true) (rest : List Char) :
    dialect.scan none (s ++ rest) = dialect.scan none rest := by
  induction s with
  | nil => rfl
  | cons c s ih =>
      obtain ⟨hc, hs⟩ := List.forall_mem_cons.mp hs
      rw [List.cons_append, scan_cons_of_plain hc, ih hs]

theorem scan_doubleQuotes {quote : Char} (hquote : quote ∈ dialect.quotes) (s rest : List Char) :
    dialect.scan (some quote) (Text.doubleQuotes quote s ++ quote :: rest) =
      dialect.scan none rest := by
  induction s with
  | nil => simp [Text.doubleQuotes, scan]
  | cons c s ih =>
      unfold Text.doubleQuotes
      split
      · rename_i hc
        subst hc
        simp [scan, hquote, ih]
      · rename_i hc
        simp [scan, hc, ih]

theorem scan_writeName (hdialect : dialect ≠ .canonical) (name : String) (rest : List Char) :
    dialect.scan none ((dialect.writeName name).toList ++ rest) = dialect.scan none rest := by
  have hquoted : ∀ quote, dialect.nameQuote? = some quote →
      dialect.scan none (Text.quoted quote name.toList ++ rest) = dialect.scan none rest := by
    intro quote hname
    have hmem : quote ∈ dialect.quotes := by simp [quotes, hname]
    simp only [Text.quoted, List.cons_append, List.append_assoc, List.nil_append]
    rw [scan, if_pos hmem, scan_doubleQuotes hmem]
  unfold writeName
  cases hname : dialect.nameQuote? with
  | none => cases dialect <;> first | exact absurd rfl hdialect | cases hname
  | some quote =>
      dsimp only
      rw [String.toList_ofList]
      exact hquoted quote hname

private theorem isPlain_of_isDigit {c : Char} (h : c.isDigit = true) : isPlain c = true := by
  simp only [isPlain, Bool.and_eq_true, bne_iff_ne, ne_eq]
  refine ⟨⟨⟨⟨?_, ?_⟩, ?_⟩, ?_⟩, ?_⟩ <;> rintro rfl <;> cases h

private theorem takeWhile_of_endsNumber {rest : List Char} (h : EndsNumber rest) :
    rest.takeWhile Char.isDigit = [] := by
  cases rest with
  | nil => rfl
  | cons c rest => rw [List.takeWhile_cons, h c rfl]; rfl

theorem leadingNumber_of_endsNumber {rest : List Char} (h : EndsNumber rest) :
    leadingNumber rest = none := by
  rw [leadingNumber, takeWhile_of_endsNumber h]

theorem leadingNumber_toDigits (n : Nat) {rest : List Char} (h : EndsNumber rest) :
    leadingNumber (Nat.toDigits 10 n ++ rest) = some n := by
  have hall : ∀ c ∈ Nat.toDigits 10 n, c.isDigit = true :=
    fun c hc => Nat.isDigit_of_mem_toDigits (by decide) (by decide) hc
  have hdigits : (Nat.toDigits 10 n ++ rest).takeWhile Char.isDigit = Nat.toDigits 10 n := by
    rw [List.takeWhile_append_of_pos hall, takeWhile_of_endsNumber h, List.append_nil]
  rw [leadingNumber, hdigits]
  split
  · rename_i hnil
    exact absurd hnil Nat.toDigits_ne_nil
  · rw [Nat.ofDigitChars_ten_toDigits]

theorem scan_placeholder (dialect : Dialect) (n : Nat) {rest : List Char} (h : EndsNumber rest) :
    dialect.scan none ((dialect.placeholder n).toList ++ rest) =
      dialect.shownNumber n :: dialect.scan none rest := by
  have hnumbered : ∀ mark : String, mark.toList = [dialect.placeholderMark] →
      dialect.scan none ((mark ++ toString n).toList ++ rest) =
        some n :: dialect.scan none rest := by
    intro mark hmark
    have hquote : dialect.placeholderMark ∉ dialect.quotes := by
      cases dialect <;> decide
    have htext : (mark ++ toString n).toList ++ rest =
        dialect.placeholderMark :: (Nat.toDigits 10 n ++ rest) := by
      rw [String.toList_append, hmark, Nat.toString_eq_ofList_toDigits, String.toList_ofList]
      rfl
    have hplain : ∀ c ∈ Nat.toDigits 10 n, isPlain c = true := fun c hc =>
      isPlain_of_isDigit (Nat.isDigit_of_mem_toDigits (by decide) (by decide) hc)
    rw [htext, scan, if_neg hquote, if_pos rfl, leadingNumber_toDigits n h, scan_plain hplain]
  cases dialect with
  | mysql =>
      have htext : (mysql.placeholder n).toList ++ rest = '?' :: rest := by
        rw [placeholder]
        rfl
      have hmark : '?' = mysql.placeholderMark := rfl
      rw [htext, scan, if_neg (by decide), if_pos hmark, leadingNumber_of_endsNumber h]
      rfl
  | postgresql => exact hnumbered "$" (by decide)
  | canonical | sqlite => exact hnumbered "?" (by decide)

end Scan

end Dialect

open Dialect (EndsNumber isPlain isSeparator)

section Reading

variable {dialect : Dialect}

/-- The text of pieces that are numbered on from `before`. -/
def Piece.spell (dialect : Dialect) (before : Nat) (ps : List Piece) : List Char :=
  (String.join ((number before ps).map dialect.writeToken)).toList

namespace Piece

theorem spell_append (before : Nat) (ps qs : List Piece) :
    spell dialect before (ps ++ qs) =
      spell dialect before ps ++ spell dialect (before + (ps.filterMap bound?).length) qs := by
  rw [spell, number_append, List.map_append, String.join_append, String.toList_append]
  rfl

theorem spell_text (before : Nat) (s : String) (ps : List Piece) :
    spell dialect before (.text s :: ps) = s.toList ++ spell dialect before ps := by
  simp [spell, number, Dialect.writeToken]

end Piece

/-- A reader of the pieces finds the placeholders of their slots and no others. -/
def Readable (dialect : Dialect) (ps : List Piece) : Prop :=
  ∀ before rest, EndsNumber rest →
    dialect.scan none (Piece.spell dialect before ps ++ rest) =
      (Slot.numbers before (ps.filterMap Piece.slot?)).map dialect.shownNumber ++
        dialect.scan none rest

/-- The pieces are readable, also behind a number. -/
def ReadableBehind (dialect : Dialect) (ps : List Piece) : Prop :=
  Readable dialect ps ∧ ∀ before rest, EndsNumber (Piece.spell dialect before ps ++ rest)

theorem readable_nil : Readable dialect [] := fun _ _ _ => rfl

theorem Readable.append {ps qs : List Piece} (hp : Readable dialect ps)
    (hq : ReadableBehind dialect qs) : Readable dialect (ps ++ qs) := by
  intro before rest hrest
  have hcount : (ps.filterMap Piece.bound?).length =
      ((ps.filterMap Piece.slot?).filterMap Slot.constant?).length := by
    rw [Piece.filterMap_constant?]
  rw [Piece.spell_append, List.append_assoc, hp before _ (hq.2 _ rest), hq.1 _ rest hrest,
    List.filterMap_append, Slot.numbers_append, List.map_append, List.append_assoc, hcount]

theorem Readable.text {s : String} (hs : s.toList.all isPlain = true) {ps : List Piece}
    (h : Readable dialect ps) : Readable dialect (.text s :: ps) := by
  intro before rest hrest
  have hplain : ∀ c ∈ s.toList, isPlain c = true := List.all_eq_true.mp hs
  rw [Piece.spell_text, List.append_assoc, Dialect.scan_plain hplain, h before rest hrest]
  rfl

theorem Readable.behind {s : String} (hs : isSeparator s = true) {ps : List Piece}
    (h : Readable dialect ps) : ReadableBehind dialect (.text s :: ps) := by
  unfold isSeparator at hs
  split at hs
  · cases hs
  · rename_i c cs hchars
    rw [Bool.and_eq_true, Bool.not_eq_true'] at hs
    refine ⟨h.text (by rw [hchars]; exact hs.2), fun before rest => ?_⟩
    rw [Piece.spell_text, hchars]
    intro d hd
    cases hd
    exact hs.1

theorem readableBehind_text {s : String} (hs : isSeparator s = true) :
    ReadableBehind dialect [.text s] := readable_nil.behind hs

theorem readable_argument (position : Nat) : Readable dialect [.argument position] := by
  intro before rest hrest
  have hspell : Piece.spell dialect before [.argument position] =
      (dialect.placeholder (position + 1)).toList := by
    simp [Piece.spell, Piece.number, Dialect.writeToken]
  rw [hspell, Dialect.scan_placeholder dialect _ hrest]
  rfl

theorem readable_bound (v : Value) : Readable dialect [.bound v] := by
  intro before rest hrest
  have hspell : Piece.spell dialect before [.bound v] =
      (dialect.placeholder (before + 1)).toList := by
    simp [Piece.spell, Piece.number, Dialect.writeToken]
  rw [hspell, Dialect.scan_placeholder dialect _ hrest]
  rfl

end Reading

namespace Expr

section Rendering

variable {dialect : Dialect}

private theorem readable_constant (hdialect : dialect ≠ .canonical) (v : Value) :
    Readable dialect [dialect.constant v] := by
  have hnull : Readable dialect [.text "NULL"] := readable_nil.text (by decide)
  cases v with
  | null => cases dialect <;> exact hnull
  | _ => cases dialect <;> first | exact absurd rfl hdialect | exact readable_bound _

private theorem readable_asOperand {x : Expr} {ps : List Piece} (h : Readable dialect ps) :
    Readable dialect (x.asOperand ps) := by
  unfold asOperand
  split
  · exact (h.append (readableBehind_text (by decide))).text (by decide)
  · exact h

private theorem readable_intercalate {s : String} (hs : isSeparator s = true) {xs : List Expr}
    (h : ∀ x ∈ xs, Readable dialect (x.pieces dialect)) :
    Readable dialect ([Piece.text s].intercalate (operandPieces dialect xs)) := by
  induction xs with
  | nil => exact readable_nil
  | cons x xs ih =>
      obtain ⟨hx, hxs⟩ := List.forall_mem_cons.mp h
      cases xs with
      | nil =>
          simp only [operandPieces, List.intercalate_singleton]
          exact readable_asOperand hx
      | cons y ys =>
          have hrest := (ih hxs).behind hs
          simp only [operandPieces, List.intercalate_cons_cons, List.append_assoc] at hrest ⊢
          exact (readable_asOperand hx).append hrest

private theorem readable_whens {whens : List (When Expr)} {ps : List Piece}
    (hps : ReadableBehind dialect ps)
    (h : ∀ w ∈ whens, Readable dialect (w.condition.pieces dialect) ∧
      Readable dialect (w.result.pieces dialect)) :
    ReadableBehind dialect (whenPieces dialect whens ++ ps) := by
  induction whens with
  | nil => exact hps
  | cons w ws ih =>
      obtain ⟨⟨hc, hr⟩, hws⟩ := List.forall_mem_cons.mp h
      have hresult := (hr.append (ih hws)).behind (s := " THEN ") (by decide)
      have hbranch := (hc.append hresult).behind (s := " WHEN ") (by decide)
      simpa only [whenPieces, List.append_assoc, List.cons_append] using hbranch

theorem readable_pieces (hdialect : dialect ≠ .canonical) (e : Expr) :
    Readable dialect (e.pieces dialect) := by
  induction e using induct with
  | node e ih =>
      cases e with
      | val v => exact readable_constant hdialect v
      | arg position => exact readable_argument position
      | col name ty =>
          intro before rest _
          rw [pieces, Piece.spell_text, List.append_assoc, Dialect.scan_writeName hdialect]
          rfl
      | and xs => exact readable_intercalate (by decide) ih
      | or xs => exact readable_intercalate (by decide) ih
      | cmp op l r =>
          have hl := readable_asOperand (x := l) (ih l (by simp [children]))
          have hr := readable_asOperand (x := r) (ih r (by simp [children]))
          exact hl.append (hr.behind (by cases op <;> decide))
      | case whens otherwise ty =>
          have hend : ReadableBehind dialect [.text " END"] := readableBehind_text (by decide)
          have helse : ReadableBehind dialect (elsePieces dialect otherwise ++ [.text " END"]) := by
            cases otherwise with
            | none => exact hend
            | some x => exact ((ih x (otherwise_mem_children rfl)).append hend).behind (by decide)
          have hwhens := readable_whens helse fun w hw =>
            ⟨ih w.condition (condition_mem_children hw), ih w.result (result_mem_children hw)⟩
          have hcase := hwhens.1.text (s := "CASE") (by decide)
          simpa only [pieces, List.append_assoc, List.cons_append] using hcase
      | cast x ty =>
          have hx := ih x (List.mem_singleton_self x)
          rw [pieces]
          split
          · exact hx
          · have hclose : ReadableBehind dialect [.text (" AS " ++ dialect.typeName ty ++ ")")] :=
              readableBehind_text (by cases dialect <;> cases ty <;> decide)
            exact (hx.append hclose).text (by decide)
      | isNull negated x =>
          have hx := readable_asOperand (x := x) (ih x (List.mem_singleton_self x))
          exact hx.append (readableBehind_text (by cases negated <;> decide))
      | not x => exact (readable_asOperand (ih x (List.mem_singleton_self x))).text (by decide)

/-- A reader of a statement finds the placeholders of the slots, with their numbers. -/
theorem placeholders_toStatement (hdialect : dialect ≠ .canonical) (parameters : List Value)
    (e : Expr) :
    dialect.placeholders (e.toStatement dialect parameters).sql =
      (Slot.numbers (e.argumentCount + parameters.length) e.slots).map dialect.shownNumber := by
  have hread := readable_pieces hdialect e (e.argumentCount + parameters.length) [] (by
    intro c hc
    cases hc)
  rw [List.append_nil, slots_pieces hdialect] at hread
  exact hread.trans (List.append_nil _)

theorem parameters_toStatement (hdialect : dialect ≠ .canonical) (parameters : List Value)
    (e : Expr) :
    (e.toStatement dialect parameters).parameters =
      parameters ++ e.slots.filterMap Slot.constant? := by
  rw [← slots_pieces hdialect, Piece.filterMap_constant?]
  rfl

theorem parameters_toStatement_canonical (parameters : List Value) (e : Expr) :
    (e.toStatement .canonical parameters).parameters = parameters := by
  rw [toStatement, bound_pieces_canonical, List.append_nil]

end Rendering

/-- What a statement binds and how it is numbered, as long as numbers have no limit. -/
theorem toStatement_slots (e : Expr) (parameters : List Value) :
    (e.toStatement .canonical parameters).parameters = parameters ∧
    ((e.argumentCount = 0 ∧ ∀ n, .argument n ∉ e.slots) ∨
      ∃ n, e.argumentCount = n + 1 ∧ .argument n ∈ e.slots ∧
        ∀ m, .argument m ∈ e.slots → m ≤ n) ∧
    ∀ dialect : Dialect, dialect ≠ .canonical →
      let statement := e.toStatement dialect parameters
      let read := dialect.placeholders statement.sql
      statement.parameters = parameters ++ e.slots.filterMap Slot.constant? ∧
      read.length = e.slots.length ∧
      (dialect ≠ .mysql →
        (∀ (i n : Nat), e.slots[i]? = some (Slot.argument n) → read[i]? = some (some (n + 1))) ∧
        ∀ (i : Nat) (v : Value), e.slots[i]? = some (Slot.constant v) →
          read[i]? = some (some
            (e.argumentCount + parameters.length + (Slot.constantsBefore e.slots i + 1))) ∧
          statement.parameters[parameters.length + Slot.constantsBefore e.slots i]? = some v ∧
          ∀ j, j ≠ i → read[j]? ≠ read[i]?) := by
  refine ⟨parameters_toStatement_canonical parameters e, argumentCount_cases e, ?_⟩
  intro dialect hdialect
  dsimp only
  rw [placeholders_toStatement hdialect, parameters_toStatement hdialect]
  refine ⟨rfl, by rw [List.length_map, Slot.length_numbers], fun hnumbered => ?_⟩
  have hshown : dialect.shownNumber = some := by
    cases dialect <;> first | rfl | exact absurd rfl hnumbered
  simp only [hshown, List.getElem?_map]
  constructor
  · intro i n h
    rw [Slot.getElem?_numbers_argument _ h, Option.map_some]
  · intro i v h
    refine ⟨?_, ?_, fun j hij heq => ?_⟩
    · rw [Slot.getElem?_numbers_constant _ h, Option.map_some]
    · rw [List.getElem?_append_right (Nat.le_add_right _ _), Nat.add_sub_cancel_left]
      exact Slot.getElem?_constants h
    · have hbefore : ∀ n, Slot.argument n ∈ e.slots → n < e.argumentCount + parameters.length :=
        fun n hn => Nat.lt_add_right _ (lt_argumentCount hn)
      have hsame := (Option.map_inj_right fun _ _ => Option.some.inj).mp heq
      exact Slot.getElem?_numbers_ne hbefore h hij hsame

end Expr

end QueryExpr
