/-!
# QueryExpr.Span

Where an expression was written. A span is for messages only: it never takes part in the
comparison of two expressions.
-/

namespace QueryExpr

/-- A line and a column, both counted from one; line zero stands for an unknown place. -/
structure Span where
  line : Nat
  column : Nat
deriving DecidableEq, Inhabited

namespace Span

/-- The place of an expression nobody wrote. -/
def unknown : Span := ⟨0, 0⟩

def isKnown (s : Span) : Bool := s.line != 0

/-- A known place is written `line:column`, an unknown one as a question mark. -/
def text (s : Span) : String :=
  if s.isKnown then toString s.line ++ ":" ++ toString s.column else "?"

end Span
end QueryExpr
