import QueryExpr.Proofs.Slots

/-!
# Redaction

Blacking out the constants of an expression, save for whether they are null, blacks out the bound
pieces and leaves the text as it is. So a dialect that binds its constants writes nothing of them:
expressions that differ in constants only have one text.
-/

namespace QueryExpr

/-- Tells only whether the value is null. -/
def Value.redact : Value → Value
  | null => null
  | _ => bool true

def Piece.redact : Piece → Piece
  | bound v => bound v.redact
  | p => p

/-- A number goes with the place of a constant, not with the constant. -/
theorem Piece.number_map_redact (before : Nat) (ps : List Piece) :
    number before (ps.map redact) = number before ps := by
  induction ps generalizing before with
  | nil => rfl
  | cons p ps ih =>
      cases p with
      | text s => exact congrArg (Token.text s :: ·) (ih before)
      | argument position => exact congrArg (Token.slot (position + 1) :: ·) (ih before)
      | bound v => exact congrArg (Token.slot (before + 1) :: ·) (ih (before + 1))

namespace Expr

/-- Blacks out a node that is a constant. -/
def redactValue : Expr → Expr
  | val v => val v.redact
  | e => e

/-- The tree of the expression with every constant blacked out. -/
def redacted (e : Expr) : Expr := e.rebuild redactValue

/-- The parts that are put in parentheses if they are compound. -/
def operands : Expr → List Expr
  | and xs | or xs => xs
  | cmp _ l r => [l, r]
  | isNull _ x | not x => [x]
  | _ => []

theorem mem_children_of_mem_operands {x e : Expr} (h : x ∈ e.operands) : x ∈ e.children := by
  cases e with
  | val | arg | col | case | cast => cases h
  | _ => exact h

section Rebuilding

variable {dialect : Dialect} {f : Expr → Expr} {h : Piece → Piece}

private theorem map_intercalate (htext : ∀ s, h (.text s) = .text s) (s : String)
    (l : List (List Piece)) :
    ([Piece.text s].intercalate l).map h = [Piece.text s].intercalate (l.map (List.map h)) := by
  induction l with
  | nil => rfl
  | cons ps l ih =>
      cases l with
      | nil => simp [List.intercalate_singleton]
      | cons qs l =>
          simp only [List.map_cons, List.intercalate_cons_cons, List.map_append, htext,
            List.map_nil] at ih ⊢
          rw [ih]

private theorem map_asOperand (htext : ∀ s, h (.text s) = .text s) {x : Expr}
    (hkind : (f x).needsParentheses = x.needsParentheses) (ps : List Piece) :
    (f x).asOperand (ps.map h) = (x.asOperand ps).map h := by
  unfold asOperand
  rw [hkind]
  split <;> simp [htext]

theorem pieces_mapChildren (htext : ∀ s, h (.text s) = .text s) {e : Expr}
    (hkind : ∀ x ∈ e.operands, (f x).needsParentheses = x.needsParentheses)
    (hown : ∀ p ∈ e.ownPieces dialect, h p = p)
    (hparts : ∀ x ∈ e.children, (f x).pieces dialect = (x.pieces dialect).map h) :
    (e.mapChildren f).pieces dialect = (e.pieces dialect).map h := by
  have hoperand : ∀ x ∈ e.operands, (f x).asOperand ((f x).pieces dialect) =
      (x.asOperand (x.pieces dialect)).map h := by
    intro x hx
    rw [hparts x (mem_children_of_mem_operands hx), map_asOperand htext (hkind x hx)]
  cases e with
  | val | arg => simpa [mapChildren, pieces, ownPieces] using (hown _ (by simp [ownPieces])).symm
  | col name ty => simp [mapChildren, pieces, htext]
  | and xs | or xs =>
      simp only [mapChildren, pieces, operandPieces_eq, List.map_map, map_intercalate htext]
      congr 1
      exact List.map_congr_left hoperand
  | cmp op l r =>
      simp [mapChildren, pieces, htext, hoperand l (by simp [operands]),
        hoperand r (by simp [operands])]
  | case whens otherwise ty =>
      have hwhens : whenPieces dialect (whens.map (When.map f)) =
          (whenPieces dialect whens).map h := by
        simp only [whenPieces_eq, List.flatMap_map, List.map_flatMap]
        rw [List.flatMap_def, List.flatMap_def]
        congr 1
        apply List.map_congr_left
        intro w hw
        simp [When.map, htext, hparts _ (condition_mem_children hw),
          hparts _ (result_mem_children hw)]
      have helse : elsePieces dialect (otherwise.map f) = (elsePieces dialect otherwise).map h := by
        cases otherwise with
        | none => rfl
        | some x => simp [elsePieces, htext, hparts x (otherwise_mem_children rfl)]
      simp [mapChildren, pieces, hwhens, helse, htext]
  | cast x ty =>
      have hx := hparts x (List.mem_singleton_self x)
      rw [mapChildren, pieces, pieces]
      split <;> simp [hx, htext]
  | isNull negated x | not x =>
      simp [mapChildren, pieces, htext, hoperand x (List.mem_singleton_self x)]

end Rebuilding

private theorem redacted_eq (e : Expr) : e.redacted = (e.mapChildren redacted).redactValue :=
  rebuild_eq redactValue e

private theorem needsParentheses_redacted (e : Expr) :
    e.redacted.needsParentheses = e.needsParentheses := by
  rw [redacted_eq]
  cases e <;> rfl

theorem pieces_redacted {dialect : Dialect} (hdialect : dialect ≠ .canonical) (e : Expr) :
    e.redacted.pieces dialect = (e.pieces dialect).map Piece.redact := by
  induction e using induct with
  | node e ih =>
      rw [redacted_eq]
      cases e with
      | val v => cases v <;> cases dialect <;> first | rfl | exact absurd rfl hdialect
      | _ =>
          exact pieces_mapChildren (fun _ => rfl) (fun x _ => needsParentheses_redacted x)
            (by simp [ownPieces, Piece.redact]) ih

theorem argumentCount_redacted (e : Expr) : e.redacted.argumentCount = e.argumentCount := by
  induction e using induct with
  | node e ih =>
      have hparts : (e.mapChildren redacted).children.map argumentCount =
          e.children.map argumentCount := by
        rw [children_mapChildren, List.map_map]
        exact List.map_congr_left ih
      rw [redacted_eq, argumentCount_eq, argumentCount_eq e]
      cases e with
      | val | arg => rfl
      | _ => exact congrArg (List.foldr max 0) hparts

/--
Where constants are bound, expressions that differ in constants only have the same text. The
parameters bound before matter by their number.
-/
theorem sql_eq_of_redacted_eq {dialect : Dialect} (hdialect : dialect ≠ .canonical) {e e' : Expr}
    (hsame : e.redacted = e'.redacted) {parameters parameters' : List Value}
    (hlength : parameters.length = parameters'.length) :
    (e.toStatement dialect parameters).sql = (e'.toStatement dialect parameters').sql := by
  have hredacted : ∀ x : Expr, ∀ ps : List Value,
      (x.redacted.toStatement dialect ps).sql = (x.toStatement dialect ps).sql := by
    intro x ps
    simp only [toStatement, argumentCount_redacted, pieces_redacted hdialect,
      Piece.number_map_redact]
  have hcount : (e'.toStatement dialect parameters).sql =
      (e'.toStatement dialect parameters').sql := by
    simp only [toStatement, hlength]
  rw [← hredacted e, hsame, hredacted e', hcount]

/-- A constant as an operand, as a result and below a cast. -/
def threefold (v : Value) : Expr :=
  .case [⟨.cmp .gt (.col "x" .string) (.val v), .val v⟩] (some (.cast (.val v) .f64)) none

theorem sql_eq_of_redacted_eq_threefold :
    Dialect.mysql ≠ .canonical ∧
      (threefold (.string "' OR `x` = ?")).redacted = (threefold (.f64 .nan)).redacted ∧
      [Value.i32 1].length = [Value.null].length ∧
      ((threefold (.string "' OR `x` = ?")).toStatement .mysql [.i32 1]).sql =
        ((threefold (.f64 .nan)).toStatement .mysql [.null]).sql :=
  ⟨by decide, rfl, rfl, sql_eq_of_redacted_eq (by decide) rfl rfl⟩

end Expr

end QueryExpr
