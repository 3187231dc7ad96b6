import QueryExpr.Text.CodePoints

/-!
# Blank characters

Blank means the Unicode property White_Space: twenty-five code points, in ten ranges. Marks that
merely look blank, such as the zero-width space or the byte order mark, are not among them.
-/

namespace QueryExpr.Text

def blank : CodePoints :=
  [(0x09, 0x0D), (0x20, 0x20), (0x85, 0x85), (0xA0, 0xA0), (0x1680, 0x1680), (0x2000, 0x200A),
    (0x2028, 0x2029), (0x202F, 0x202F), (0x205F, 0x205F), (0x3000, 0x3000)]

def isBlank (c : Char) : Bool := blank.contains c

example : blank.ascendsFrom 0 = true := by decide

example : blank.count = 25 := by decide

/-- The text without the blanks at its two ends. -/
def trim (s : List Char) : List Char :=
  ((s.dropWhile isBlank).reverse.dropWhile isBlank).reverse

end QueryExpr.Text
