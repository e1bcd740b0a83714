import QueryExpr.Binary.Decimal
import QueryExpr.Value

/-!
# QueryExpr.Cast

Conversion of one item to an item type, and of a value to a sequence type.

* `Integer.read?`, `Double.read?` — the texts that denote a number.
* `Item.cast`  — conversion of an item; what has no conversion at all is `unsupported`.
* `Value.cast` — conversion of a value of at most one item.
-/

namespace QueryExpr

/-! ## Reading numbers -/

/-- Reads a row of digits with a sign as a 64-bit integer. One more plus may stand in front. -/
def Integer.read? (cs : List Char) : Option Int64 :=
  let (negative, ds) := splitSign (match cs with | '+' :: r => r | r => r)
  if ds.isEmpty || !ds.all Char.isDigit then none
  else
    let n : Int := if negative then -(decimalValue ds : Int) else decimalValue ds
    if Int64.minValue.toInt ≤ n && n ≤ Int64.maxValue.toInt then some (Int64.ofInt n) else none

/-- Reads a numeral or one of the names of the infinities and of not-a-number. -/
def Double.read? (cs : List Char) : Option Double :=
  if cs = "INF".toList || cs = "+INF".toList then some (.infinite false)
  else if cs = "-INF".toList then some (.infinite true)
  else if cs = "NaN".toList then some .nan
  else (Numeral.read? cs).map (·.toBinary .double)

/-! ## Items -/

namespace Item

/-- The 64-bit integer that a double rounds to toward zero, if there is one. -/
def integerOfDouble? (x : Double) : Option Int64 :=
  match x.truncate with
  | none => none
  | some n =>
    if Int64.minValue.toInt ≤ n && n ≤ Int64.maxValue.toInt then some (Int64.ofInt n) else none

/-- Conversion to a boolean. Of texts only the four names of the truth values have one. -/
def toBoolean (i : Item) : Except CastError Bool :=
  let read (s : String) : Except CastError Bool :=
    let t := Text.trim s
    if t = "true" || t = "1" then .ok true
    else if t = "false" || t = "0" then .ok false
    else .error (.invalidLexical s .boolean)
  match i with
  | .bool b => .ok b.value
  | .string s => read s
  | .untyped s => read s
  | .integer n => .ok (n != 0)
  | .float x => .ok (truthOfNumber x)
  | .double x => .ok (truthOfNumber x)
  | .anyUri _ => .error (.unsupported i.type .boolean)
  | .qname _ => .error (.unsupported i.type .boolean)

/-- Conversion to an integer. A binary number loses its fraction and must then be in range. -/
def toInteger (i : Item) : Except CastError Int64 :=
  let read (s : String) : Except CastError Int64 :=
    match Integer.read? (Text.trim s).toList with
    | some n => .ok n
    | none => .error (.invalidLexical s .integer)
  let cut (x : Double) : Except CastError Int64 :=
    match integerOfDouble? x with
    | some n => .ok n
    | none => .error (.outOfRange i.text .integer)
  match i with
  | .integer n => .ok n
  | .bool b => .ok (if b.value then 1 else 0)
  | .float x => cut (x.convert .double)
  | .double x => cut x
  | .string s => read s
  | .untyped s => read s
  | .anyUri _ => .error (.unsupported i.type .integer)
  | .qname _ => .error (.unsupported i.type .integer)

/-- Conversion to a double. `target` is the type that was asked for, and is named where there is
no conversion; a text that denotes no number is always a failed double. -/
def toDouble (target : Atom) (i : Item) : Except CastError Double :=
  let read (s : String) : Except CastError Double :=
    match Double.read? (Text.trim s).toList with
    | some x => .ok x
    | none => .error (.invalidLexical s .double)
  match i with
  | .integer n => .ok (.ofInt n.toInt)
  | .float x => .ok (x.convert .double)
  | .double x => .ok x
  | .bool b => .ok (.ofInt (if b.value then 1 else 0))
  | .string s => read s
  | .untyped s => read s
  | .anyUri _ => .error (.unsupported i.type target)
  | .qname _ => .error (.unsupported i.type target)

/-- Conversion to a URI: texts only, without white space at the ends. -/
def toAnyUri (i : Item) : Except CastError String :=
  match i with
  | .string s => .ok (Text.trim s)
  | .untyped s => .ok (Text.trim s)
  | .anyUri s => .ok (Text.trim s)
  | _ => .error (.unsupported i.type .anyUri)

/-- Conversion to a qualified name. -/
def toQName (i : Item) : Except CastError QName :=
  let read (s : String) : Except CastError QName :=
    match QName.read? (Text.trim s) with
    | some q => .ok q
    | none => .error (.invalidLexical s .qname)
  match i with
  | .qname q => .ok q
  | .string s => read s
  | .untyped s => read s
  | _ => .error (.unsupported i.type .qname)

/-- Conversion of an item to an item type. Every item has a string value; nothing converts to an
abstract type. A single float is the nearest to the double. -/
def cast (i : Item) (target : Atom) : Except CastError Item :=
  match target with
  | .string => .ok (.string i.text)
  | .untyped => .ok (.untyped i.text)
  | .boolean => i.toBoolean.map fun b => .bool (.plain b)
  | .integer => i.toInteger.map .integer
  | .double => (i.toDouble .double).map .double
  | .float => (i.toDouble .float).map fun x => .float (x.convert .single)
  | .anyUri => i.toAnyUri.map .anyUri
  | .qname => i.toQName.map .qname
  | .item => .error (.unsupported i.type target)
  | .anyAtomic => .error (.unsupported i.type target)
  | .numeric => .error (.unsupported i.type target)

end Item

/-! ## Values -/

/-- Conversion of a value. The empty sequence is kept where the target allows it, and several
items are a type error. -/
def Value.cast (v : Value) (target : SeqType) (span : Span) : Except EvalError Value :=
  match v.single? span with
  | .error e => .error e
  | .ok none =>
    if target.occurs.min = 0 then .ok [] else .error (.cast (.emptySequence target.atom))
  | .ok (some i) =>
    match i.cast target.atom with
    | .error e => .error (.cast e)
    | .ok j => .ok [j]

end QueryExpr
