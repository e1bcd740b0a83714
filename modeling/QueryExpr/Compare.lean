import QueryExpr.Cast

/-!
# QueryExpr.Compare

Comparison of items and of values.

* `CompareOp` — the six operators; `holds` reads one off an ordering.
* `Item.equiv` — the equivalence a switch dispatches on; it never fails.
* `Item.compare` — comparison of two items; an untyped one is first converted to the type of the
  other.
* `Value.compare` — existential comparison: some pair of items is related.
-/

namespace QueryExpr

inductive CompareOp where
  | eq
  | ne
  | lt
  | le
  | gt
  | ge
deriving DecidableEq

namespace CompareOp

def all : List CompareOp := [.eq, .ne, .lt, .le, .gt, .ge]

def symbol : CompareOp → String
  | .eq => "="
  | .ne => "!="
  | .lt => "<"
  | .le => "<="
  | .gt => ">"
  | .ge => ">="

/-- The operator for exchanged operands. -/
def swap : CompareOp → CompareOp
  | .eq => .eq
  | .ne => .ne
  | .lt => .gt
  | .le => .ge
  | .gt => .lt
  | .ge => .le

/-- Whether an operator holds of an ordering. Of an unordered pair only inequality does. -/
def holds (op : CompareOp) : Option Ordering → Bool
  | none => op == .ne
  | some o =>
    match op with
    | .eq => o.isEq
    | .ne => o.isNe
    | .lt => o.isLT
    | .le => o.isLE
    | .gt => o.isGT
    | .ge => o.isGE

end CompareOp

namespace Item

/-- The characters of the three kinds of text. -/
def characters? : Item → Option String
  | .string s => some s
  | .untyped s => some s
  | .anyUri s => some s
  | _ => none

/-- Equivalence of two items. Numbers of any kind are compared as numbers and not-a-number is
equivalent to itself; items of unrelated kinds are not equivalent. -/
def equiv : Item → Item → Bool
  | .integer i, .integer j => i == j
  | .bool a, .bool b => a.value == b.value
  | .qname p, .qname q => p == q
  | a, b =>
    match a.number?, b.number? with
    | some x, some y => x.equal y || (x.isNaN && y.isNaN)
    | _, _ =>
      match a.characters?, b.characters? with
      | some s, some t => s == t
      | _, _ => false

/-- Comparison of two items of related kinds. Integers are compared exactly, an integer and a
binary number as doubles, texts by code points; names are equal or not, and have no order. -/
def compareTyped (op : CompareOp) (span : Span) : Item → Item → Except EvalError Bool
  | .integer i, .integer j => .ok (op.holds (some (Ord.compare i.toInt j.toInt)))
  | .bool a, .bool b => .ok (op.holds (some (Ord.compare a.value b.value)))
  | .qname p, .qname q =>
    if op = .eq || op = .ne then .ok (op.holds (some (if p = q then .eq else .lt)))
    else .error (.type Atom.qname.name Atom.qname.name span)
  | a, b =>
    match a.number?, b.number? with
    | some x, some y => .ok (op.holds (x.compare y))
    | _, _ =>
      match a.characters?, b.characters? with
      | some s, some t => .ok (op.holds (some (Ord.compare s t)))
      | _, _ => .error (.type a.type.name b.type.name span)

def isUntyped : Item → Bool
  | .untyped _ => true
  | _ => false

/-- An untyped item as it takes part in a comparison: a double against a number, otherwise an
item of the type of the other side. -/
def promote (i other : Item) : Except CastError Item :=
  if i.isUntyped && !other.isUntyped then
    i.cast (if other.type.isNumeric then .double else other.type)
  else .ok i

/-- Comparison of two items. -/
def compare (op : CompareOp) (span : Span) (a b : Item) : Except EvalError Bool :=
  match a.promote b with
  | .error e => .error (.cast e)
  | .ok a' =>
    match b.promote a with
    | .error e => .error (.cast e)
    | .ok b' => compareTyped op span a' b'

end Item

namespace Value

/-- Whether an item is related to some item of a sequence; the first failure ends the search. -/
def compareWith (op : CompareOp) (span : Span) (a : Item) : Value → Except EvalError Bool
  | [] => .ok false
  | b :: bs =>
    match a.compare op span b with
    | .error e => .error e
    | .ok true => .ok true
    | .ok false => compareWith op span a bs

/-- Whether some item of the first sequence is related to some item of the second. -/
def compare (op : CompareOp) (span : Span) : Value → Value → Except EvalError Bool
  | [], _ => .ok false
  | a :: as, bs =>
    match compareWith op span a bs with
    | .error e => .error e
    | .ok true => .ok true
    | .ok false => compare op span as bs

end Value
end QueryExpr
