import QueryExpr.Compile.Node
import QueryExpr.Index.Basic

/-!
# QueryExpr.Index.Analysis

Whether an index can answer a compiled tree.

* `Analysis` — the verdict, the tree that was left, the events, and the operands asked about.
* `orderOperands` — operands of a conjunction, those with the fewest matches first.
* `pruneOperands` — operands of a disjunction without those that match nothing.
* `Expr.analyse` — the analysis.

The analysis stops at the first operand that the index does not cover. What it did to the operands
in front stays done, so the tree is a result also of an analysis that ends with no.
-/

namespace QueryExpr

structure Analysis (ε α : Type) where
  /-- The estimate, or `none` if the index cannot answer. -/
  estimate : Option ε
  value : α
  events : List Event
  /-- The operands about which the index was asked, in order. -/
  asked : List Expr

/-! ## Conjunctions -/

/-- The first operand without a match goes to the front. -/
def bringToFront (ps : List (Expr × Nat)) : Option (List (Expr × Nat)) :=
  match ps.findIdx? (·.2 == 0) with
  | none => none
  | some i => (ps[i]?).map (· :: ps.eraseIdx i)

/-- The operands of a conjunction in the order in which they should run, with their estimates. -/
def orderOperands (reorder : Bool) (ps : List (Expr × Nat)) : List (Expr × Nat) :=
  match bringToFront ps with
  | some qs => qs
  | none => if reorder then ps.mergeSort fun p q => p.2 ≤ q.2 else ps

/-- The estimate of a conjunction is its least one. -/
def leastEstimate (estimates : List Nat) : Nat := estimates.min?.getD 0

/-- How estimates are listed in notes. -/
def estimatesText (estimates : List Nat) : String :=
  "[" ++ ", ".intercalate (estimates.map toString) ++ "]"

/-- A conjunction of which all operands are covered. -/
def conjoin (reorder : Bool) (ps : List (Expr × Nat)) (span : Span) : Noted (Nat × Expr) :=
  let qs := orderOperands reorder ps
  ⟨(leastEstimate (qs.map (·.2)), .connective .conjunction (qs.map (·.1)) span),
    [.note .reorder ("index order of 'and' by selectivity " ++ estimatesText (qs.map (·.2)))]⟩

/-! ## Disjunctions -/

/-- The operands that may match. -/
def pruneOperands (ps : List (Expr × Nat)) : List Expr := (ps.filter (·.2 != 0)).map (·.1)

/-- The estimate of a disjunction: the sum, as far as it goes. -/
def sumEstimates (estimates : List Nat) : Nat :=
  estimates.foldl (fun sum n => min (sum + n) IndexInfo.greatest) 0

/-- The note on dropped operands, if there are any. -/
def droppedNote (count : Nat) : List Event :=
  if count = 0 then []
  else [.note .remove ("drop " ++ toString count ++ " empty operand(s) from 'or'")]

/-- A disjunction of which all operands are covered. If one operand is left, it takes the place of
the node as a boolean; if that fails, nothing is left. -/
def disjoin (ps : List (Expr × Nat)) (span : Span) : Noted (Option Nat × Expr) :=
  let kept := pruneOperands ps
  let dropped := droppedNote (ps.length - kept.length)
  let estimate := sumEstimates (ps.map (·.2))
  match if kept.isEmpty then [.ofBool false] else kept with
  | [e] =>
    let b := (optimizeBoolean e span).andThen fun e => .lift (replaced .disjunction span e)
    match b.value with
    | .ok e => ⟨(some estimate, e), dropped ++ b.events⟩
    | .error _ => ⟨(none, .connective .disjunction [] span), dropped ++ b.events⟩
  | es => ⟨(some estimate, .connective .disjunction es span), dropped⟩

/-! ## Trees -/

/-- Asks the index about an operand; an operand that it can only scan is not covered. -/
def askIndex (index : Index) (e : Expr) : Analysis Nat Expr :=
  match index.info e with
  | some info => ⟨if info.sequential then none else some info.selectivity, e, [], [e]⟩
  | none => ⟨none, e, [], [e]⟩

mutual

/-- Whether the index can answer a node, with about how many matches. -/
def Expr.analyse (index : Index) (reorder : Bool) : Expr → Analysis Nat Expr
  | .connective .conjunction es span =>
    let a := analyseAll index reorder es
    match a.estimate with
    | none => ⟨none, .connective .conjunction a.value span, a.events, a.asked⟩
    | some ns =>
      let r := conjoin reorder (a.value.zip ns) span
      ⟨some r.value.1, r.value.2, a.events ++ r.events, a.asked⟩
  | .connective .disjunction es span =>
    let a := analyseAll index reorder es
    match a.estimate with
    | none => ⟨none, .connective .disjunction a.value span, a.events, a.asked⟩
    | some ns =>
      let r := disjoin (a.value.zip ns) span
      ⟨r.value.1, r.value.2, a.events ++ r.events, a.asked⟩
  | .literal v => ⟨none, .literal v, [], []⟩
  | .failing c t span => ⟨none, .failing c t span, [], []⟩
  | e => askIndex index e

def analyseAll (index : Index) (reorder : Bool) : List Expr → Analysis (List Nat) (List Expr)
  | [] => ⟨some [], [], [], []⟩
  | e :: es =>
    let a := e.analyse index reorder
    match a.estimate with
    | none => ⟨none, a.value :: es, a.events, a.asked⟩
    | some n =>
      let r := analyseAll index reorder es
      ⟨r.estimate.map (n :: ·), a.value :: r.value, a.events ++ r.events, a.asked ++ r.asked⟩

end

end QueryExpr
