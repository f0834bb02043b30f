/-!
# Quoted text

A text between quotes, in which a quote is written twice. String operands are shown this way, and
the dialects of SQL write names this way.
-/

namespace DocFilter.Quote

/-- Writes every `q` of a text twice. -/
def double (q : Char) (cs : List Char) : List Char :=
  cs.flatMap fun c => if c = q then [q, q] else [c]

/-- A text between two quotes `q`. -/
def enclose (q : Char) (s : String) : String := String.ofList (q :: double q s.toList ++ [q])

end DocFilter.Quote
