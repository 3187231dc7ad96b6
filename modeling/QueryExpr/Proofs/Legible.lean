import QueryExpr.Proofs.Leaves
import QueryExpr.Proofs.Subterms

/-!
# Legible expressions

If the names of an expression are plain, its lexemes are delimited, so they can be read off its
canonical text. The expression is legible if besides its connectives connect something, its casts
name a type, and no cast looks like a constant.
-/

namespace QueryExpr

open Lexeme (spell Stops AllDelimited Delimited)

namespace Mark

/-- The mark ends the word or the quotation in front of it. -/
def isStop : Mark → Bool
  | opening | negation | caseStart | castStart => false
  | _ => true

theorem stops {m : Mark} (hm : m ∈ all) (h : m.isStop = true) (rest : List Char) :
    Stops (m.chars ++ rest) := by
  have hall : ∀ m ∈ all, m.isStop = true → (m.chars.head?.any fun c => c = ' ' ∨ c = ')') := by
    decide +kernel
  have hhead := hall m hm h
  intro c hc
  cases hchars : m.chars with
  | nil => simp [hchars] at hhead
  | cons d cs =>
      obtain rfl : d = c := by simpa [hchars] using hc
      simpa [hchars] using hhead

end Mark

namespace Lexeme

/-- The lexemes are delimited in front of whatever ends a word. -/
def SelfDelimited (l : List Lexeme) : Prop :=
  ∀ rest, Stops (spell rest) → AllDelimited rest → AllDelimited (l ++ rest)

theorem selfDelimited_nil : SelfDelimited [] := fun _ _ h => h

/-- Lexemes of which the first one may follow a word. -/
structure Continues (l : List Lexeme) : Prop where
  stops : ∀ rest, Stops (spell (l ++ rest))
  delimited : SelfDelimited l

theorem SelfDelimited.append {l k : List Lexeme} (hl : SelfDelimited l) (hk : Continues k) :
    SelfDelimited (l ++ k) := by
  intro rest hstops hrest
  rw [List.append_assoc]
  exact hl _ (hk.stops rest) (hk.delimited rest hstops hrest)

theorem SelfDelimited.cons {l : List Lexeme} (h : SelfDelimited l) (m : Mark)
    (hm : m ∈ Mark.all) (hcase : m ≠ .caseStart) : SelfDelimited (.mark m :: l) :=
  fun rest hstops hrest => ⟨⟨hm, fun heq => absurd heq hcase⟩, h rest hstops hrest⟩

theorem SelfDelimited.continues {l : List Lexeme} (h : SelfDelimited l) (m : Mark)
    (hm : m ∈ Mark.all) (hstop : m.isStop = true) : Continues (.mark m :: l) := by
  refine ⟨fun rest => Mark.stops hm hstop _, h.cons m hm ?_⟩
  rintro rfl
  cases hstop

theorem continues_mark (m : Mark) (hm : m ∈ Mark.all) (hstop : m.isStop = true) :
    Continues [.mark m] := selfDelimited_nil.continues m hm hstop

end Lexeme

open Lexeme (SelfDelimited Continues continues_mark)

namespace Expr

/-- The texts whose cast to a double is written for a double. -/
def specialTexts : List String := ["NaN", "Infinity", "-Infinity"]

/-- At a column: its name is a plain one. -/
def HasPlainName : Expr → Prop
  | col name _ => isPlainName name = true
  | _ => True

instance : DecidablePred HasPlainName
  | col name _ => inferInstanceAs (Decidable (isPlainName name = true))
  | val _ | arg _ | and _ | or _ | cmp _ _ _ | case _ _ _ | cast _ _ | isNull _ _ | not _ =>
      inferInstanceAs (Decidable True)

/-- The node can be told from its text. -/
def Legible : Expr → Prop
  | col name _ => isPlainName name = true
  | and xs | or xs => 2 ≤ xs.length
  | cast x ty =>
      ty.isIndeterminate = false ∧ ∀ text ∈ specialTexts, x = val (.string text) → ty ≠ .f64
  | _ => True

theorem Legible.hasPlainName {e : Expr} (h : Legible e) : HasPlainName e := by
  cases e with
  | col name ty => exact h
  | _ => trivial

theorem mem_specialTexts {x : Double} {text : String} (h : Value.specialText? x = some text) :
    text ∈ specialTexts := by
  unfold Value.specialText? at h
  split at h
  · cases h
    decide
  · rename_i negative _
    cases h
    cases negative <;> decide
  · cases h

/-- A constant is a leaf of one lexeme, or a special double. -/
theorem leaf_or_special (v : Value) :
    (∃ a, Leaf (val v) a) ∨ ∃ x text, v = .f64 x ∧ Value.specialText? x = some text := by
  cases v with
  | null => exact Or.inl ⟨_, .null⟩
  | bool b => exact Or.inl ⟨_, .bool b⟩
  | i32 n => exact Or.inl ⟨_, .i32 n⟩
  | i64 n => exact Or.inl ⟨_, .i64 n⟩
  | string s => exact Or.inl ⟨_, .string s⟩
  | f64 x =>
      cases hx : x.reading with
      | finite => exact Or.inl ⟨_, .f64 hx⟩
      | nan => exact Or.inr ⟨x, "NaN", rfl, by rw [Value.specialText?, hx]⟩
      | infinite negative =>
          refine Or.inr ⟨x, if negative then "-Infinity" else "Infinity", rfl, ?_⟩
          rw [Value.specialText?, hx]

theorem lexemes_special {x : Double} {text : String} (h : Value.specialText? x = some text) :
    (val (.f64 x)).lexemes =
      [.mark .castStart, .quoted text.toList, .mark (.castEnd .f64)] := by
  simp only [lexemes, Value.lexemes, h]

theorem lexemes_cast {x : Expr} {ty : Ty} (h : ty.isIndeterminate = false) :
    (cast x ty).lexemes = .mark .castStart :: x.lexemes ++ [.mark (.castEnd ty)] := by
  rw [lexemes, h]
  rfl

theorem lexemes_case (whens : List (When Expr)) (otherwise : Option Expr) (ty : Option Ty) :
    (case whens otherwise ty).lexemes =
      .mark .caseStart :: (whenLexemes whens ++ (elseLexemes otherwise ++ [.mark .caseEnd])) := by
  rw [lexemes, List.append_assoc, List.cons_append]

/-- The operands after the first one, each with the mark in front of it. -/
def restLexemes (m : Mark) (xs : List Expr) : List Lexeme :=
  xs.flatMap fun x => .mark m :: x.operand

theorem intercalate_operands (m : Mark) (x : Expr) (xs : List Expr) :
    [Lexeme.mark m].intercalate (operandLexemes (x :: xs)) = x.operand ++ restLexemes m xs := by
  induction xs generalizing x with
  | nil => simp [operandLexemes, restLexemes, operand]
  | cons y ys ih =>
      have hys := ih y
      simp only [operandLexemes, List.intercalate_cons_cons, List.append_assoc] at hys ⊢
      rw [hys]
      rfl

section Delimited

theorem Leaf.delimited {e : Expr} {a : Lexeme} (h : Leaf e a) : SelfDelimited [a] := by
  intro rest hstops hrest
  refine ⟨?_, hrest⟩
  cases a with
  | word w => exact ⟨h.isWord, hstops⟩
  | quoted s => exact hstops
  | mark m => cases h

theorem castEnd_mem {ty : Ty} (h : ty.isIndeterminate = false) : Mark.castEnd ty ∈ Mark.all := by
  cases ty <;> first | decide | cases h

theorem comparison_mem (op : Comparison) : Mark.comparison op ∈ Mark.all := by
  cases op <;> decide

theorem test_mem (negated : Bool) : Mark.test negated ∈ Mark.all := by cases negated <;> decide

private theorem delimited_operand {e : Expr} (h : SelfDelimited e.lexemes) :
    SelfDelimited e.operand := by
  unfold operand bracket
  split
  · exact (h.append (continues_mark .closing (by decide) rfl)).cons .opening (by decide)
      (by decide)
  · exact h

private theorem delimited_operands {m : Mark} (hm : m ∈ Mark.all) (hstop : m.isStop = true)
    {xs : List Expr} (h : ∀ x ∈ xs, SelfDelimited x.lexemes) :
    SelfDelimited ([Lexeme.mark m].intercalate (operandLexemes xs)) := by
  induction xs with
  | nil => exact Lexeme.selfDelimited_nil
  | cons x xs ih =>
      obtain ⟨hx, hxs⟩ := List.forall_mem_cons.mp h
      cases xs with
      | nil =>
          simp only [operandLexemes, List.intercalate_singleton]
          exact delimited_operand hx
      | cons y ys =>
          have hys := ih hxs
          simp only [operandLexemes, List.intercalate_cons_cons, List.append_assoc] at hys ⊢
          exact (delimited_operand hx).append (hys.continues m hm hstop)

private theorem continues_whens {whens : List (When Expr)} {l : List Lexeme} (hl : Continues l)
    (h : ∀ w ∈ whens, SelfDelimited w.condition.lexemes ∧ SelfDelimited w.result.lexemes) :
    Continues (whenLexemes whens ++ l) := by
  induction whens with
  | nil => exact hl
  | cons w ws ih =>
      obtain ⟨⟨hc, hr⟩, hws⟩ := List.forall_mem_cons.mp h
      have hresult := (hr.append (ih hws)).continues .result (by decide) rfl
      have hbranch := (hc.append hresult).continues .branch (by decide) rfl
      simpa only [whenLexemes, List.append_assoc, List.cons_append] using hbranch

theorem delimited_lexemes {e : Expr} (h : Everywhere HasPlainName e) :
    SelfDelimited e.lexemes := by
  induction e using induct with
  | node e ih =>
      obtain ⟨hnode, hparts⟩ := everywhere_iff.mp h
      have hchild : ∀ x ∈ e.children, SelfDelimited x.lexemes := fun x hx => ih x hx (hparts x hx)
      cases e with
      | val v =>
          rcases leaf_or_special v with ⟨a, ha⟩ | ⟨x, text, rfl, hx⟩
          · rw [ha.lexemes]
            exact ha.delimited
          · rw [lexemes_special hx]
            have htext : SelfDelimited [.quoted text.toList] := fun _ hstops hrest =>
              ⟨hstops, hrest⟩
            exact (htext.append (continues_mark (.castEnd .f64) (by decide) rfl)).cons .castStart
              (by decide) (by decide)
      | arg position => exact (Leaf.arg position).delimited
      | col name ty => exact (Leaf.col ty hnode).delimited
      | and xs => exact delimited_operands (by decide) rfl hchild
      | or xs => exact delimited_operands (by decide) rfl hchild
      | cmp op l r =>
          have hr := delimited_operand (hchild r (by simp [children]))
          exact (delimited_operand (hchild l (by simp [children]))).append
            (hr.continues (.comparison op) (comparison_mem op) rfl)
      | case whens otherwise ty =>
          have hend := continues_mark .caseEnd (by decide) rfl
          have helse : Continues (elseLexemes otherwise ++ [.mark .caseEnd]) := by
            cases otherwise with
            | none => exact hend
            | some x =>
                have hx := hchild x (otherwise_mem_children rfl)
                exact (hx.append hend).continues .otherwise (by decide) rfl
          have hbody := continues_whens helse fun w hw =>
            ⟨hchild w.condition (condition_mem_children hw),
              hchild w.result (result_mem_children hw)⟩
          rw [lexemes_case]
          exact fun rest hstops hrest =>
            ⟨⟨by decide, fun _ => hbody.stops rest⟩, hbody.delimited rest hstops hrest⟩
      | cast x ty =>
          have hx := hchild x (List.mem_singleton_self x)
          cases hty : ty.isIndeterminate with
          | true =>
              rw [lexemes, if_pos hty]
              exact hx
          | false =>
              rw [lexemes_cast hty]
              exact (hx.append (continues_mark (.castEnd ty) (castEnd_mem hty) rfl)).cons .castStart
                (by decide) (by decide)
      | isNull negated x =>
          exact (delimited_operand (hchild x (List.mem_singleton_self x))).append
            (continues_mark (.test negated) (test_mem negated) rfl)
      | not x =>
          exact (delimited_operand (hchild x (List.mem_singleton_self x))).cons .negation
            (by decide) (by decide)

/-- Expressions with plain names that have one canonical text have the same lexemes. -/
theorem lexemes_eq_of_canonicalText {e e' : Expr} (h : Everywhere HasPlainName e)
    (h' : Everywhere HasPlainName e') (htext : e.canonicalText = e'.canonicalText) :
    e.lexemes = e'.lexemes := by
  have hdelimited : ∀ {x : Expr}, Everywhere HasPlainName x → AllDelimited x.lexemes := fun hx => by
    have := delimited_lexemes hx [] (by simp [Stops, spell]) trivial
    rwa [List.append_nil] at this
  apply Lexeme.spell_injective (hdelimited h) (hdelimited h')
  rw [← toList_canonicalText, htext, toList_canonicalText]

end Delimited

end Expr

end QueryExpr
