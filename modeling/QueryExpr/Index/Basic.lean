import QueryExpr.Expr.Basic

/-!
# QueryExpr.Index.Basic

The boundary to an index.

* `IndexInfo` — what an index says about an operand.
* `IndexPlan` — set operations over lookups.
* `Index`     — the two questions that are put to an index.
-/

namespace QueryExpr

/-- What an index says about an operand that it covers. -/
structure IndexInfo where
  /-- About how many matches there are; zero only if there is surely none. -/
  selectivity : Nat
  /-- There is no access but a scan of everything. -/
  sequential : Bool
deriving DecidableEq

namespace IndexInfo

/-- The greatest selectivity. -/
def greatest : Nat := Nat.pow 2 64 - 1

/-- An operand without any access but a scan. -/
def scan : IndexInfo := ⟨greatest, true⟩

end IndexInfo

/-- Set operations over the matches of lookups. -/
inductive IndexPlan where
  | lookup (key : String)
  | intersect (inputs : List IndexPlan)
  | union (inputs : List IndexPlan)
  | empty

instance : Inhabited IndexPlan := ⟨.empty⟩

/-- An index, by its answers to the two questions. -/
structure Index where
  /-- What is known of an operand, or `none` if the index does not cover it. -/
  info : Expr → Option IndexInfo
  /-- The lookup that finds the matches of an operand. -/
  lookup : Expr → IndexPlan

end QueryExpr
