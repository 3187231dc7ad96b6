import QueryExpr.Proofs.Quotes
import QueryExpr.Sql.Statement

/-!
# Quotations in statements

Names are quoted in every dialect but the canonical one, which quotes the texts among its constants
instead. Whatever stands in quotes stays there: a reader that starts at the opening quote finds the
text that was quoted and leaves what follows.
-/

namespace QueryExpr

namespace Expr

/-- The expressions that are rendered as a quotation, and what they quote in which quotes. -/
inductive Quotes : Dialect → Char → Expr → String → Prop
  | postgresql (name : String) (ty : Ty) : Quotes .postgresql '\x22' (col name ty) name
  | sqlite (name : String) (ty : Ty) : Quotes .sqlite '\x22' (col name ty) name
  | mysql (name : String) (ty : Ty) : Quotes .mysql '\x60' (col name ty) name
  | canonical (s : String) : Quotes .canonical '\x27' (val (.string s)) s

variable {dialect : Dialect} {quote : Char} {e : Expr} {s : String}

theorem Quotes.toList_sql (h : Quotes dialect quote e s) (parameters : List Value) :
    (e.toStatement dialect parameters).sql.toList = Text.quoted quote s.toList := by
  cases h <;>
    simp [toStatement, pieces, Piece.number, Dialect.writeToken, Dialect.writeName,
      Dialect.nameQuote?, Dialect.constant, Value.literal, String.join]

/--
A quotation is read back as the text it quotes, whatever that is made of, and what follows is left
untouched unless it begins with a quote. Conversely, if that text is read and something is left,
then what was read is the quotation.
-/
theorem quotation_read_back (h : Quotes dialect quote e s) (parameters : List Value)
    (rest : String) :
    (rest.toList.head? ≠ some quote →
      Text.unquote? quote ((e.toStatement dialect parameters).sql ++ rest).toList =
        some (s.toList, rest.toList)) ∧
      ∀ text : String, rest ≠ "" → Text.unquote? quote text.toList = some (s.toList, rest.toList) →
        text = (e.toStatement dialect parameters).sql ++ rest := by
  constructor
  · intro hrest
    rw [String.toList_append, h.toList_sql]
    exact Text.unquote?_quoted s.toList hrest
  · intro text hrest hread
    have hleft : rest.toList ≠ [] := by simpa using hrest
    obtain ⟨htext, -⟩ := Text.eq_of_unquote? hleft hread
    rw [← String.toList_inj, htext, String.toList_append, h.toList_sql]

/-- Quotes at both ends and doubled ones in between, in front of an attempt to go on. -/
theorem quotation_read_back_injection :
    Quotes .mysql '\x60' (col "\x60a\x60\x60b\x60" .i64) "\x60a\x60\x60b\x60" ∧
      " OR 1".toList.head? ≠ some '\x60' ∧
      Text.unquote? '\x60' (((col "\x60a\x60\x60b\x60" .i64).toStatement .mysql []).sql ++
        " OR 1").toList = some ("\x60a\x60\x60b\x60".toList, " OR 1".toList) := by
  have hquotes : Quotes .mysql '\x60' (col "\x60a\x60\x60b\x60" .i64) "\x60a\x60\x60b\x60" :=
    .mysql _ _
  have hrest : " OR 1".toList.head? ≠ some '\x60' := by decide
  exact ⟨hquotes, hrest, (quotation_read_back hquotes [] " OR 1").1 hrest⟩

end Expr

end QueryExpr
