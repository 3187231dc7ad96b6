import QueryExpr.Proofs.Lexemes
import QueryExpr.Proofs.Unification
import QueryExpr.Sql.Statement

/-!
# Expressions as lexemes

The lexemes of an expression spell its canonical text. They follow the rendering to pieces, with the
marks and words that the pieces are made of told apart.
-/

namespace QueryExpr

open Lexeme (spell)

namespace Value

/-- A double without a numeral is a cast of one of these texts. -/
def specialText? (x : Double) : Option String :=
  match x.reading with
  | .nan => some "NaN"
  | .infinite negative => some (if negative then "-Infinity" else "Infinity")
  | .finite _ _ _ => none

def lexemes : Value → List Lexeme
  | string s => [.quoted s.toList]
  | f64 x =>
      match specialText? x with
      | some text => [.mark .castStart, .quoted text.toList, .mark (.castEnd .f64)]
      | none => [.word (Layout.literal.write x).toList]
  | v => [.word v.literal.toList]

theorem spell_lexemes (v : Value) : spell v.lexemes = v.literal.toList := by
  have hspecial : ∀ text ∈ ["NaN", "Infinity", "-Infinity"],
      spell [.mark .castStart, .quoted text.toList, .mark (.castEnd .f64)] =
        (specialLiteral text).toList := by decide +kernel
  cases v with
  | string s => simp [lexemes, spell, Lexeme.chars, literal]
  | f64 x =>
      simp only [lexemes, literal, specialText?]
      cases x.reading with
      | nan => exact hspecial _ (by simp)
      | infinite negative => cases negative <;> exact hspecial _ (by simp)
      | finite => simp [spell, Lexeme.chars]
  | _ => simp [lexemes, spell, Lexeme.chars]

end Value

namespace Expr

def bracket (e : Expr) (l : List Lexeme) : List Lexeme :=
  if e.needsParentheses then .mark .opening :: l ++ [.mark .closing] else l

mutual

def lexemes : Expr → List Lexeme
  | val v => v.lexemes
  | arg position => [.word (Dialect.canonical.placeholder (position + 1)).toList]
  | col name _ => [.word name.toList]
  | and xs => [Lexeme.mark .conjunction].intercalate (operandLexemes xs)
  | or xs => [Lexeme.mark .disjunction].intercalate (operandLexemes xs)
  | cmp op l r => bracket l (lexemes l) ++ .mark (.comparison op) :: bracket r (lexemes r)
  | case whens otherwise _ =>
      .mark .caseStart :: whenLexemes whens ++ elseLexemes otherwise ++ [.mark .caseEnd]
  | cast x ty =>
      if ty.isIndeterminate then lexemes x
      else .mark .castStart :: lexemes x ++ [.mark (.castEnd ty)]
  | isNull negated x => bracket x (lexemes x) ++ [.mark (.test negated)]
  | not x => .mark .negation :: bracket x (lexemes x)

def operandLexemes : List Expr → List (List Lexeme)
  | [] => []
  | x :: xs => bracket x (lexemes x) :: operandLexemes xs

def whenLexemes : List (When Expr) → List Lexeme
  | [] => []
  | ⟨c, r⟩ :: ws => .mark .branch :: lexemes c ++ .mark .result :: lexemes r ++ whenLexemes ws

def elseLexemes : Option Expr → List Lexeme
  | none => []
  | some x => .mark .otherwise :: lexemes x

end

/-- The expression as it stands inside another one. -/
def operand (e : Expr) : List Lexeme := e.bracket e.lexemes

/-- A relation that survives when pieces and lexemes are put together in the same way. -/
structure Concatenative (dialect : Dialect) (R : List Piece → List Lexeme → Prop) : Prop where
  nil : R [] []
  append : ∀ {ps qs : List Piece} {l k : List Lexeme}, R ps l → R qs k → R (ps ++ qs) (l ++ k)
  mark : ∀ m : Mark, m.isCast = false → R [.text (m.textIn dialect)] [.mark m]

/-- What has to be seen of a node besides: of a leaf, and of a cast that is written. -/
def Joined (dialect : Dialect) (R : List Piece → List Lexeme → Prop) : Expr → Prop
  | cast x ty => ty.isIndeterminate = false → R (x.pieces dialect) x.lexemes →
      R ((cast x ty).pieces dialect) (cast x ty).lexemes
  | val v => R ((val v).pieces dialect) (val v).lexemes
  | arg position => R ((arg position).pieces dialect) (arg position).lexemes
  | col name ty => R ((col name ty).pieces dialect) (col name ty).lexemes
  | _ => True

section Concatenative

variable {dialect : Dialect} {R : List Piece → List Lexeme → Prop} (hR : Concatenative dialect R)
include hR

private theorem Concatenative.cons (m : Mark) (hm : m.isCast = false) {ps : List Piece}
    {l : List Lexeme} (h : R ps l) : R (.text (m.textIn dialect) :: ps) (.mark m :: l) :=
  hR.append (hR.mark m hm) h

private theorem Concatenative.bracket (e : Expr) {ps : List Piece} {l : List Lexeme}
    (h : R ps l) : R (e.asOperand ps) (e.bracket l) := by
  unfold asOperand Expr.bracket
  split
  · exact hR.append (hR.cons .opening rfl h) (hR.mark .closing rfl)
  · exact h

private theorem Concatenative.intercalate (m : Mark) (hm : m.isCast = false) {xs : List Expr}
    (h : ∀ x ∈ xs, R (x.pieces dialect) x.lexemes) :
    R ([Piece.text (m.textIn dialect)].intercalate (operandPieces dialect xs))
      ([Lexeme.mark m].intercalate (operandLexemes xs)) := by
  induction xs with
  | nil => exact hR.nil
  | cons x xs ih =>
      have hx := hR.bracket x (h x List.mem_cons_self)
      cases xs with
      | nil =>
          simp only [operandPieces, operandLexemes, List.intercalate_singleton]
          exact hx
      | cons y ys =>
          have hys := ih fun z hz => h z (List.mem_cons_of_mem x hz)
          simp only [operandPieces, operandLexemes, List.intercalate_cons_cons,
            List.append_assoc] at hys ⊢
          exact hR.append hx (hR.cons m hm hys)

private theorem Concatenative.whens {whens : List (When Expr)}
    (h : ∀ w ∈ whens, R (w.condition.pieces dialect) w.condition.lexemes ∧
      R (w.result.pieces dialect) w.result.lexemes) :
    R (whenPieces dialect whens) (whenLexemes whens) := by
  induction whens with
  | nil => exact hR.nil
  | cons w ws ih =>
      obtain ⟨⟨hc, hr⟩, hws⟩ := List.forall_mem_cons.mp h
      exact hR.append (hR.append (hR.cons .branch rfl hc) (hR.cons .result rfl hr)) (ih hws)

theorem Concatenative.lexemes {e : Expr} (h : Everywhere (Joined dialect R) e) :
    R (e.pieces dialect) e.lexemes := by
  induction e using induct with
  | node e ih =>
      obtain ⟨hnode, hparts⟩ := everywhere_iff.mp h
      have hchild : ∀ x ∈ e.children, R (x.pieces dialect) x.lexemes := fun x hx =>
        ih x hx (hparts x hx)
      cases e with
      | val | arg | col => exact hnode
      | and xs => exact hR.intercalate .conjunction rfl hchild
      | or xs => exact hR.intercalate .disjunction rfl hchild
      | cmp op l r =>
          have hl := hR.bracket l (hchild l (by simp [children]))
          have hr := hR.bracket r (hchild r (by simp [children]))
          exact hR.append hl (hR.cons (.comparison op) rfl hr)
      | case whens otherwise ty =>
          have hwhens := hR.whens fun w hw =>
            ⟨hchild w.condition (condition_mem_children hw),
              hchild w.result (result_mem_children hw)⟩
          have helse : R (elsePieces dialect otherwise) (elseLexemes otherwise) := by
            cases otherwise with
            | none => exact hR.nil
            | some x => exact hR.cons .otherwise rfl (hchild x (otherwise_mem_children rfl))
          exact hR.append (hR.append (hR.cons .caseStart rfl hwhens) helse)
            (hR.mark .caseEnd rfl)
      | cast x ty =>
          have hx := hchild x (List.mem_singleton_self x)
          cases hty : ty.isIndeterminate with
          | true =>
              rw [pieces, Expr.lexemes, if_pos hty, if_pos hty]
              exact hx
          | false => exact hnode hty hx
      | isNull negated x =>
          exact hR.append (hR.bracket x (hchild x (List.mem_singleton_self x)))
            (hR.mark (.test negated) rfl)
      | not x =>
          exact hR.cons .negation rfl (hR.bracket x (hchild x (List.mem_singleton_self x)))

end Concatenative

section Spelling

/-- The pieces are written as the lexemes are spelled, however the placeholders are numbered. -/
def Writes (ps : List Piece) (l : List Lexeme) : Prop :=
  ∀ before, (String.join ((Piece.number before ps).map Dialect.canonical.writeToken)).toList =
    spell l

theorem Writes.append {ps qs : List Piece} {l k : List Lexeme} (hl : Writes ps l)
    (hk : Writes qs k) : Writes (ps ++ qs) (l ++ k) := by
  intro before
  rw [Piece.number_append, List.map_append, String.join_append, String.toList_append, hl, hk]
  exact List.flatMap_append.symm

theorem writes_text {s : String} {l : List Lexeme} (h : s.toList = spell l) :
    Writes [.text s] l := by
  intro before
  rw [← h]
  simp [Piece.number, Dialect.writeToken]

theorem writes_mark (m : Mark) : Writes [.text m.text] [.mark m] :=
  writes_text (List.flatMap_singleton _ _).symm

theorem concatenative_writes : Concatenative .canonical Writes where
  nil _ := rfl
  append := Writes.append
  mark m _ := by
    rw [m.textIn_canonical]
    exact writes_mark m

private theorem joined_writes (e : Expr) : Joined .canonical Writes e := by
  cases e with
  | val v =>
      have hpieces : (val v).pieces .canonical = [.text v.literal] := by
        cases v <;> rfl
      rw [Joined, hpieces]
      exact writes_text v.spell_lexemes.symm
  | arg position =>
      intro before
      simp [pieces, Piece.number, Dialect.writeToken, lexemes, spell, Lexeme.chars]
  | col name ty => exact writes_text (List.flatMap_singleton _ _).symm
  | cast x ty =>
      intro hty hx
      have hconcrete : ¬ ty.isIndeterminate = true := by simp [hty]
      rw [pieces, lexemes, if_neg hconcrete, if_neg hconcrete]
      exact ((writes_mark .castStart).append hx).append (writes_mark (.castEnd ty))
  | _ => trivial

/-- The lexemes of an expression spell its canonical text. -/
theorem writes_lexemes (e : Expr) : Writes (e.pieces .canonical) e.lexemes :=
  concatenative_writes.lexemes fun x _ => joined_writes x

theorem toList_canonicalText (e : Expr) : e.canonicalText.toList = spell e.lexemes :=
  writes_lexemes e _

end Spelling

end Expr

end QueryExpr
