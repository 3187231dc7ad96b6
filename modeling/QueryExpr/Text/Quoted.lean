/-!
# Quoted text

A quoted text stands between two quotes, and a quote inside it is written twice.
-/

namespace QueryExpr.Text

def doubleQuotes (quote : Char) : List Char → List Char
  | [] => []
  | c :: s => if c = quote then c :: c :: doubleQuotes quote s else c :: doubleQuotes quote s

def quoted (quote : Char) (s : List Char) : List Char := quote :: doubleQuotes quote s ++ [quote]

end QueryExpr.Text
