import QueryExpr.Plan
import QueryExpr.Proofs.Redaction
import QueryExpr.Proofs.Unambiguous

/-!
# Cache keys

The lexemes of an expression can be read back in another dialect: up to the constants that it binds,
they tell its pieces. A special double and a cast of its text have the same lexemes, and only one of
them is bound; simplification folds such casts. So plans of one cache key have one statement, if
their column names are plain and, unless they are simplified, no cast is taken for a double.
-/

namespace QueryExpr

open Lexeme (castEnd_cons_inj)

namespace Expr

/-- At a cast to a double: what is cast is not written like the text of a special double. -/
def HasPlainCast : Expr → Prop
  | cast x .f64 => ∀ text ∈ specialTexts, x.canonicalText ≠ (val (.string text)).canonicalText
  | _ => True

instance : DecidablePred HasPlainCast
  | cast x .f64 => inferInstanceAs
      (Decidable (∀ text ∈ specialTexts, x.canonicalText ≠ (val (.string text)).canonicalText))
  | cast _ .null | cast _ .unknown | cast _ .bool | cast _ .i32 | cast _ .i64 | cast _ .string =>
      inferInstanceAs (Decidable True)
  | val _ | arg _ | col _ _ | and _ | or _ | cmp _ _ _ | case _ _ _ | isNull _ _ | not _ =>
      inferInstanceAs (Decidable True)

section Reading

variable {dialect : Dialect}

/-- The rest of a cast makes a special double of it. -/
def ClosesSpecial (l : List Lexeme) : Prop :=
  ∃ s ∈ specialTexts.map String.toList, ∃ k, l = .quoted s :: .mark (.castEnd .f64) :: k

/-- The redacted pieces that lexemes stand for in a dialect. -/
inductive Reads (dialect : Dialect) : List Lexeme → List Piece → Prop
  | nil : Reads dialect [] []
  | leaf {e : Expr} {a : Lexeme} {l : List Lexeme} {ps : List Piece} (h : Leaf e a)
      (hrest : Reads dialect l ps) :
      Reads dialect (a :: l) ((e.pieces dialect).map Piece.redact ++ ps)
  | special {s : List Char} {l : List Lexeme} {ps : List Piece}
      (h : s ∈ specialTexts.map String.toList) (hrest : Reads dialect l ps) :
      Reads dialect (.mark .castStart :: .quoted s :: .mark (.castEnd .f64) :: l)
        (.bound (.bool true) :: ps)
  | mark {m : Mark} {l : List Lexeme} {ps : List Piece} (h : m = .castStart → ¬ ClosesSpecial l)
      (hrest : Reads dialect l ps) :
      Reads dialect (.mark m :: l) (.text (m.textIn dialect) :: ps)

private theorem redact_constant (hdialect : dialect ≠ .canonical) {v : Value}
    (hv : v.isNull = false) : (dialect.constant v).redact = .bound (.bool true) := by
  cases v with
  | null => cases hv
  | _ =>
      cases dialect with
      | canonical => exact absurd rfl hdialect
      | _ => rfl

private theorem Leaf.pieces_skeleton {e : Expr} {a : Lexeme} (h : Leaf e a)
    (hdialect : dialect ≠ .canonical) :
    (e.skeleton.pieces dialect).map Piece.redact = (e.pieces dialect).map Piece.redact := by
  rw [skeleton_eq]
  cases h with
  | i32 n =>
      change [(dialect.constant (.i64 n.toInt64)).redact] = [(dialect.constant (.i32 n)).redact]
      rw [redact_constant hdialect rfl, redact_constant hdialect rfl]
  | f64 h => rw [mapChildren, blur, Value.blur, h]
  | _ => rfl

private theorem Leaf.pieces_unique {e e' : Expr} {a : Lexeme} (h : Leaf e a) (h' : Leaf e' a)
    (hdialect : dialect ≠ .canonical) :
    (e.pieces dialect).map Piece.redact = (e'.pieces dialect).map Piece.redact := by
  rw [← h.pieces_skeleton hdialect, h.unique h', h'.pieces_skeleton hdialect]

theorem Reads.unique (hdialect : dialect ≠ .canonical) {l : List Lexeme} {ps qs : List Piece}
    (h : Reads dialect l ps) (h' : Reads dialect l qs) : ps = qs := by
  induction h generalizing qs with
  | nil =>
      cases h'
      rfl
  | leaf ha _ ih =>
      cases h' with
      | leaf hb hrest => rw [ha.pieces_unique hb hdialect, ih hrest]
      | special | mark => cases ha
  -- the start of a cast is read in two ways, and what follows tells in which
  | special hs _ ih =>
      cases h' with
      | leaf ha => cases ha
      | special _ hrest => rw [ih hrest]
      | mark hm _ => exact absurd ⟨_, hs, _, rfl⟩ (hm rfl)
  | mark hm _ ih =>
      cases h' with
      | leaf ha => cases ha
      | special hs _ => exact absurd ⟨_, hs, _, rfl⟩ (hm rfl)
      | mark _ hrest => rw [ih hrest]

/-- The lexemes are read as the pieces, whatever is read after them. -/
def Told (dialect : Dialect) (ps : List Piece) (l : List Lexeme) : Prop :=
  ∀ k qs, Reads dialect k qs → Reads dialect (l ++ k) (ps.map Piece.redact ++ qs)

theorem concatenative_told : Concatenative dialect (Told dialect) where
  nil _ _ h := h
  append := by
    intro ps qs l k hl hk rest rs h
    rw [List.map_append, List.append_assoc, List.append_assoc]
    exact hl _ _ (hk _ _ h)
  mark := by
    intro m hm k qs h
    refine Reads.mark ?_ h
    rintro rfl
    cases hm

/-- The end of a cast comes neither first nor right after a quotation that comes first. -/
structure Unclosed (l : List Lexeme) : Prop where
  first : ∀ ty k, l ≠ .mark (.castEnd ty) :: k
  second : ∀ s ty k, l ≠ .quoted s :: .mark (.castEnd ty) :: k

theorem Unclosed.append {l k : List Lexeme} (hl : Unclosed l) (hk : Unclosed k) :
    Unclosed (l ++ k) := by
  cases l with
  | nil => exact hk
  | cons a l =>
      refine ⟨fun ty rest h => ?_, fun s ty rest h => ?_⟩
      · exact hl.first ty l (congrArg (· :: l) (List.cons.inj h).1)
      · obtain ⟨rfl, htail⟩ := List.cons.inj h
        cases l with
        | nil => exact hk.first ty rest htail
        | cons b l =>
            obtain ⟨rfl, -⟩ := List.cons.inj htail
            exact hl.second s ty l rfl

theorem concatenative_unclosed : Concatenative .canonical fun _ l => Unclosed l where
  nil := ⟨by simp, by simp⟩
  append := Unclosed.append
  mark m hm := by
    refine ⟨?_, by simp⟩
    rintro ty k heq
    simp only [List.cons.injEq, Lexeme.mark.injEq] at heq
    rw [heq.1] at hm
    cases hm

private theorem unclosed_leaf {e : Expr} {a : Lexeme} (h : Leaf e a) : Unclosed [a] := by
  refine ⟨?_, by simp⟩
  rintro ty k heq
  rw [(List.cons.inj heq).1] at h
  cases h

private theorem unclosed_castStart (l : List Lexeme) : Unclosed (.mark .castStart :: l) :=
  ⟨by simp, by simp⟩

private theorem joined_unclosed (e : Expr) : Joined .canonical (fun _ l => Unclosed l) e := by
  cases e with
  | val v =>
      rcases leaf_or_special v with ⟨a, ha⟩ | ⟨x, text, rfl, hx⟩
      · rw [Joined, ha.lexemes]
        exact unclosed_leaf ha
      · rw [Joined, lexemes_special hx]
        exact unclosed_castStart _
  | arg position => exact unclosed_leaf (.arg position)
  | col name ty => exact ⟨by simp [lexemes], by simp [lexemes]⟩
  | cast x ty =>
      intro hty _
      rw [lexemes_cast hty]
      exact unclosed_castStart _
  | _ => trivial

theorem unclosed_lexemes (e : Expr) : Unclosed e.lexemes :=
  concatenative_unclosed.lexemes fun x _ => joined_unclosed x

theorem Unclosed.closesSpecial {l k : List Lexeme} {ty : Ty} (h : Unclosed l)
    (hspecial : ClosesSpecial (l ++ .mark (.castEnd ty) :: k)) :
    ty = .f64 ∧ ∃ text ∈ specialTexts, l = [.quoted text.toList] := by
  obtain ⟨s, hs, rest, heq⟩ := hspecial
  obtain ⟨text, htext, rfl⟩ := List.mem_map.mp hs
  cases l with
  | nil => cases heq
  | cons a l =>
      obtain ⟨rfl, htail⟩ := List.cons.inj heq
      cases l with
      | nil => exact ⟨(castEnd_cons_inj htail).1, text, htext, rfl⟩
      | cons b l =>
          obtain ⟨rfl, -⟩ := List.cons.inj htail
          exact absurd rfl (h.second _ _ l)

theorem told_leaf {e : Expr} {a : Lexeme} (h : Leaf e a) :
    Told dialect (e.pieces dialect) e.lexemes := by
  rw [h.lexemes]
  exact fun _ _ => .leaf h

theorem told_special (hdialect : dialect ≠ .canonical) {x : Double} {text : String}
    (h : Value.specialText? x = some text) :
    Told dialect ((val (.f64 x)).pieces dialect) (val (.f64 x)).lexemes := by
  have hpieces : ((val (.f64 x)).pieces dialect).map Piece.redact = [.bound (.bool true)] :=
    congrArg (fun p => [p]) (redact_constant hdialect rfl)
  intro k qs hrest
  rw [lexemes_special h, hpieces]
  exact .special (List.mem_map_of_mem (mem_specialTexts h)) hrest

theorem told_cast {x : Expr} {ty : Ty} (h : HasPlainCast (cast x ty))
    (hty : ty.isIndeterminate = false) (hx : Told dialect (x.pieces dialect) x.lexemes) :
    Told dialect ((cast x ty).pieces dialect) (cast x ty).lexemes := by
  intro k qs hrest
  have hconcrete : ¬ ty.isIndeterminate = true := by simp [hty]
  -- otherwise the whole cast would be read as a special double
  have hclosed : ¬ ClosesSpecial (x.lexemes ++ .mark (.castEnd ty) :: k) := by
    intro hspecial
    obtain ⟨rfl, text, htext, hlexemes⟩ := (unclosed_lexemes x).closesSpecial hspecial
    apply h text htext
    rw [← String.toList_inj, toList_canonicalText, toList_canonicalText, hlexemes]
    rfl
  have hend : Reads dialect (.mark (.castEnd ty) :: k)
      (.text (" AS " ++ dialect.typeName ty ++ ")") :: qs) := .mark nofun hrest
  have hread : Reads dialect (.mark .castStart :: (x.lexemes ++ .mark (.castEnd ty) :: k))
      (.text "CAST(" :: ((x.pieces dialect).map Piece.redact ++
        .text (" AS " ++ dialect.typeName ty ++ ")") :: qs)) :=
    .mark (fun _ => hclosed) (hx _ _ hend)
  rw [lexemes_cast hty, pieces, if_neg hconcrete]
  simpa [Piece.redact] using hread

private theorem joined_told (hdialect : dialect ≠ .canonical) {e : Expr} (hname : HasPlainName e)
    (hcast : HasPlainCast e) : Joined dialect (Told dialect) e := by
  cases e with
  | val v =>
      rcases leaf_or_special v with ⟨a, ha⟩ | ⟨x, text, rfl, hx⟩
      · exact told_leaf ha
      · exact told_special hdialect hx
  | arg position => exact told_leaf (.arg position)
  | col name ty => exact told_leaf (.col ty hname)
  | cast x ty => exact told_cast hcast
  | _ => trivial

/-- The lexemes of an expression are read as its redacted pieces. -/
theorem reads_lexemes (hdialect : dialect ≠ .canonical) {e : Expr}
    (hnames : Everywhere HasPlainName e) (hcasts : Everywhere HasPlainCast e) :
    Reads dialect e.lexemes ((e.pieces dialect).map Piece.redact) := by
  have htold := concatenative_told.lexemes fun x hx =>
    joined_told hdialect (hnames x hx) (hcasts x hx)
  simpa using htold [] [] .nil

end Reading

theorem sql_eq_of_map_redact_eq {dialect : Dialect} (hdialect : dialect ≠ .canonical)
    {e e' : Expr}
    (h : (e.pieces dialect).map Piece.redact = (e'.pieces dialect).map Piece.redact)
    (parameters : List Value) :
    (e.toStatement dialect parameters).sql = (e'.toStatement dialect parameters).sql := by
  have hcount : e.argumentCount = e'.argumentCount := by
    rw [← argumentCount_redacted, ← argumentCount_redacted e']
    apply argumentCount_congr
    intro n
    rw [← slots_pieces hdialect, ← slots_pieces hdialect, pieces_redacted hdialect,
      pieces_redacted hdialect, h]
  simp only [toStatement, hcount]
  rw [← Piece.number_map_redact, h, Piece.number_map_redact]

/-- Expressions with one canonical text have one text in every dialect. -/
theorem sql_eq_of_canonicalText {e e' : Expr} (hnames : Everywhere HasPlainName e)
    (hnames' : Everywhere HasPlainName e') (hcasts : Everywhere HasPlainCast e)
    (hcasts' : Everywhere HasPlainCast e') (htext : e.canonicalText = e'.canonicalText)
    (dialect : Dialect) :
    (e.toStatement dialect []).sql = (e'.toStatement dialect []).sql := by
  by_cases hdialect : dialect = .canonical
  · rw [hdialect]
    exact htext
  · apply sql_eq_of_map_redact_eq hdialect
    have hreads := reads_lexemes hdialect hnames hcasts
    rw [lexemes_eq_of_canonicalText hnames hnames' htext] at hreads
    exact hreads.unique hdialect (reads_lexemes hdialect hnames' hcasts')

theorem hasPlainCast_of_legible {e : Expr} (h : Everywhere Legible e) :
    Everywhere HasPlainCast e := by
  intro x hx
  have hlegible := h x hx
  cases x with
  | cast y ty =>
      cases ty with
      | f64 =>
          intro text htext heq
          have hy : Everywhere Legible y :=
            (everywhere_iff.mp (h.of_subterm hx)).2 y (List.mem_singleton_self y)
          have hskeleton := skeleton_eq_of_canonicalText hy (Leaf.string text).legible heq
          exact hlegible.2 text htext (eq_string_of_skeleton hskeleton) rfl
      | _ => trivial
  | _ => trivial

end Expr

namespace Plan

open QueryExpr.Expr

variable {planner : Planner} {arguments arguments' : List Ty} {e e' : Expr}

private theorem hasPlainCast_prepare
    (hnames : Everywhere HasPlainName (planner.prepare arguments e).expr)
    (hcasts : planner.simplifies = false →
      Everywhere HasPlainCast (planner.prepare arguments e).expr) :
    Everywhere HasPlainCast (planner.prepare arguments e).expr := by
  cases hsimplifies : planner.simplifies with
  | false => exact hcasts hsimplifies
  | true =>
      have hexpr : (planner.prepare arguments e).expr = e.simplify arguments := by
        rw [Planner.prepare, if_pos hsimplifies]
      rw [hexpr] at hnames ⊢
      exact hasPlainCast_of_legible (legible_simplify hnames)

/--
Plans of one planner with equal cache keys have the same text, if all their column names are plain.
If plans are not simplified, no cast may look like a special double either.
-/
theorem sql_eq_of_cacheKey_eq
    (hnames : Everywhere HasPlainName (planner.prepare arguments e).expr)
    (hnames' : Everywhere HasPlainName (planner.prepare arguments' e').expr)
    (hcasts : planner.simplifies = false →
      Everywhere HasPlainCast (planner.prepare arguments e).expr ∧
        Everywhere HasPlainCast (planner.prepare arguments' e').expr)
    (hkey : (planner.prepare arguments e).cacheKey = (planner.prepare arguments' e').cacheKey) :
    (planner.prepare arguments e).statement.sql = (planner.prepare arguments' e').statement.sql :=
  sql_eq_of_canonicalText hnames hnames'
    (hasPlainCast_prepare hnames fun h => (hcasts h).1)
    (hasPlainCast_prepare hnames' fun h => (hcasts h).2)
    (congrArg Prod.fst hkey) planner.dialect

/-- A text column that is read as a double, against a narrow number. -/
def narrowComparison : Expr := cmp .gt (cast (col "x" .string) .f64) (val (.i32 1))

/-- The same of an integer column with a cast that is not written, against a wide number. -/
def wideComparison : Expr :=
  cmp .gt (cast (cast (col "x" .i64) .unknown) .f64) (val (.i64 1))

theorem sql_eq_of_cacheKey_eq_comparison :
    let planner : Planner := ⟨.postgresql, false⟩
    Everywhere HasPlainName (planner.prepare [] narrowComparison).expr ∧
      Everywhere HasPlainName (planner.prepare [.bool] wideComparison).expr ∧
      (planner.simplifies = false →
        Everywhere HasPlainCast (planner.prepare [] narrowComparison).expr ∧
          Everywhere HasPlainCast (planner.prepare [.bool] wideComparison).expr) ∧
      (planner.prepare [] narrowComparison).cacheKey =
        (planner.prepare [.bool] wideComparison).cacheKey ∧
      (planner.prepare [] narrowComparison).statement.sql =
        (planner.prepare [.bool] wideComparison).statement.sql :=
  ⟨by decide, by decide, by decide +kernel, by decide +kernel,
    sql_eq_of_cacheKey_eq (by decide) (by decide) (by decide +kernel) (by decide +kernel)⟩

/-- A column that is called like a number, and a cast that is written like a double. -/
def collisions : List (Planner × Expr × Expr) :=
  [(⟨.sqlite, true⟩, col "1" .i64, val (.i64 1)),
    (⟨.sqlite, false⟩, cast (val (.string "NaN")) .f64, val (.f64 .nan))]

/-- Neither condition can be spared: where it fails, equal cache keys may have different texts. -/
theorem cacheKey_ambiguous :
    (∀ c ∈ collisions,
      (c.1.prepare [] c.2.1).cacheKey = (c.1.prepare [] c.2.2).cacheKey ∧
        (c.1.prepare [] c.2.1).statement.sql ≠ (c.1.prepare [] c.2.2).statement.sql) ∧
    ¬ ∀ (planner : Planner) (arguments arguments' : List Ty) (e e' : Expr),
      (planner.prepare arguments e).cacheKey = (planner.prepare arguments' e').cacheKey →
        (planner.prepare arguments e).statement.sql =
          (planner.prepare arguments' e').statement.sql := by
  constructor
  · decide +kernel
  · intro h
    have hsame := h ⟨.sqlite, true⟩ [] [] (col "1" .i64) (val (.i64 1)) (by decide +kernel)
    exact absurd hsame (by decide +kernel)

end Plan

end QueryExpr
