/-!
# QueryExpr.Config

What can be switched on and off. The defaults keep notes, analyse and reorder for an index, and
combine scores.
-/

namespace QueryExpr

/-- What compilation tells about its work. -/
structure DiagnosticsConfig where
  /-- Keep notes. -/
  enabled : Bool := true
  /-- Put notes, and replacements that are kept, in the trace too. -/
  log : Bool := false
  /-- Keep replacements of nodes. -/
  replacements : Bool := false
deriving DecidableEq

structure IndexConfig where
  /-- Analyse for an index, if there is one. -/
  enabled : Bool := true
  /-- Order the operands of conjunctions by selectivity. -/
  reorder : Bool := true
deriving DecidableEq

structure EvalConfig where
  /-- Combine the scores of operands. -/
  scoring : Bool := true
deriving DecidableEq

structure Config where
  diagnostics : DiagnosticsConfig := {}
  index : IndexConfig := {}
  eval : EvalConfig := {}
deriving DecidableEq

instance : Inhabited Config := ⟨{}⟩

end QueryExpr
