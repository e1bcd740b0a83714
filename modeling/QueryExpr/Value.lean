import QueryExpr.Item

/-!
# QueryExpr.Value

Values: sequences of items.

* `Value.type` — a type of a value that tells one item from several, but not how many.
* `Value.ebv`, `Value.single?` — the two ways of reading a sequence as one item.
* `SeqType.admits` — whether a value is an instance of a sequence type.
-/

namespace QueryExpr

abbrev Value := List Item

namespace Value

def ofBool (b : Bool) : Value := [.bool (.plain b)]

def ofTruth (t : Truth) : Value := [.bool t]

/-- How a sequence that is too long is named in messages. -/
def sizeText (v : Value) : String := "sequence of " ++ toString v.length ++ " items"

/-- The effective boolean value: false for the empty sequence, that of the item for one item, and
none for several. -/
def ebv (v : Value) (span : Span) : Except EvalError Truth :=
  match v with
  | [] => .ok (.plain false)
  | [i] => i.ebv span
  | _ => .error (.ebv v.sizeText span)

/-- The item of a sequence of at most one item. -/
def single? (v : Value) (span : Span) : Except EvalError (Option Item) :=
  match v with
  | [] => .ok none
  | [i] => .ok (some i)
  | _ => .error (.type "a single item" v.sizeText span)

/-- The type of a value. -/
def type : Value → SeqType
  | [] => .empty
  | [i] => .one i.type
  | i :: is => ⟨is.foldl (fun a j => a.join j.type) i.type, .oneOrMore⟩

/-- The form of a value in the text of a query. -/
def text : Value → String
  | [] => "()"
  | [i] => i.literal
  | is => "(" ++ ", ".intercalate (is.map Item.literal) ++ ")"

/-- Structural equality of two values, item by item. -/
def same : Value → Value → Bool
  | [], [] => true
  | a :: as, b :: bs => a.same b && same as bs
  | _, _ => false

end Value

/-- Whether a value is an instance of a sequence type. -/
def SeqType.admits (t : SeqType) (v : Value) : Bool :=
  t.occurs.admits v.length && v.all fun i => i.type.instanceOf t.atom

end QueryExpr
