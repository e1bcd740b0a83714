import QueryExpr.Expr.Basic

/-!
# QueryExpr.Expr.Match

The tests that a node makes on values: an interval test, and the match of a switch case.
-/

namespace QueryExpr

/-- The number that an interval test sees. An untyped item is read as a double. -/
def Item.measure (span : Span) (i : Item) : Except EvalError Double :=
  match i with
  | .untyped _ =>
    match i.toDouble .double with
    | .error e => .error (.cast e)
    | .ok x => .ok x
  | _ =>
    match i.number? with
    | some x => .ok x
    | none => .error (.type Atom.numeric.name i.type.name span)

/-- Whether some item of a value lies within the bounds; the first item that is no number ends the
search. -/
def Bounds.test (b : Bounds) (span : Span) : Value → Except EvalError Bool
  | [] => .ok false
  | i :: is =>
    match i.measure span with
    | .error e => .error e
    | .ok x => if b.contains x then .ok true else test b span is

/-- Whether a switch operand matches a case value; nothing matches nothing. -/
def matchesCase : Option Item → Option Item → Bool
  | none, none => true
  | some a, some b => a.equiv b
  | _, _ => false

end QueryExpr
