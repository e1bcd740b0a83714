import QueryExpr.Error
import QueryExpr.Score
import QueryExpr.Text.Blank
import QueryExpr.Text.Letter

/-!
# QueryExpr.Item

Atomic items: scored booleans, 64-bit integers, binary numbers of two formats, three kinds of
text, and qualified names.

* `Item.type`    — the item type of an item.
* `Item.number?` — the numeric view of a numeric item.
* `Item.ebv`     — the effective boolean value of one item.
* `Item.text`    — the string value; `Item.literal` — the form it has in the text of a query.
* `Item.same`    — structural equality: numbers by value, scores included.
-/

namespace QueryExpr

/-! ## Booleans and names -/

/-- A boolean with the relevance of a true answer. -/
structure Truth where
  value : Bool
  score : Score
deriving DecidableEq

namespace Truth

def plain (b : Bool) : Truth := ⟨b, .zero⟩

/-- A true answer with a score. -/
def scored (s : Score) : Truth := ⟨true, s⟩

def same (a b : Truth) : Bool := a.value == b.value && a.score.equal b.score

end Truth

/-- A qualified name: an optional qualifier and a local name. -/
structure QName where
  qualifier : Option String
  localName : String
deriving DecidableEq

namespace QName

def isStart (c : Char) : Bool := Text.isLetter c || c == '_'

def isPart (c : Char) : Bool :=
  Text.isLetter c || Text.isNumber c || c == '_' || c == '-' || c == '.'

/-- A name without a colon: a letter or an underscore, then letters, numbers and three marks. -/
def isSimple : List Char → Bool
  | [] => false
  | c :: cs => isStart c && cs.all isPart

/-- Reads `qualifier:name` or `name`; both parts must be simple names. -/
def read? (s : String) : Option QName :=
  let cs := s.toList
  let first := cs.takeWhile (· != ':')
  match cs.dropWhile (· != ':') with
  | [] => if isSimple first then some ⟨none, String.ofList first⟩ else none
  | _ :: rest =>
    if isSimple first && isSimple rest then
      some ⟨some (String.ofList first), String.ofList rest⟩
    else none

def text (q : QName) : String :=
  match q.qualifier with
  | some p => p ++ ":" ++ q.localName
  | none => q.localName

end QName

/-! ## Items -/

inductive Item where
  | bool (b : Truth)
  | integer (i : Int64)
  | float (x : Single)
  | double (x : Double)
  | string (s : String)
  | untyped (s : String)
  | anyUri (s : String)
  | qname (q : QName)
deriving DecidableEq

namespace Item

def type : Item → Atom
  | .bool _ => .boolean
  | .integer _ => .integer
  | .float _ => .float
  | .double _ => .double
  | .string _ => .string
  | .untyped _ => .untyped
  | .anyUri _ => .anyUri
  | .qname _ => .qname

/-- The numeric view of a numeric item, as the nearest double. -/
def number? : Item → Option Double
  | .integer i => some (.ofInt i.toInt)
  | .float x => some (x.convert .double)
  | .double x => some x
  | _ => none

/-- Zero and not-a-number are false, every other number is true. -/
def truthOfNumber {f : Format} (x : Binary f) : Bool := !(x.isZero || x.isNaN)

/-- The effective boolean value of one item; a name has none. -/
def ebv (span : Span) : Item → Except EvalError Truth
  | .bool b => .ok b
  | .string s => .ok (.plain !s.isEmpty)
  | .untyped s => .ok (.plain !s.isEmpty)
  | .anyUri s => .ok (.plain !s.isEmpty)
  | .integer i => .ok (.plain (i != 0))
  | .float x => .ok (.plain (truthOfNumber x))
  | .double x => .ok (.plain (truthOfNumber x))
  | .qname _ => .error (.ebv Atom.qname.name span)

/-- The name of a truth value. -/
def boolText (b : Bool) : String := if b then "true" else "false"

/-- The string value of an item. A number has the fewest digits that read back to it, a single
one as the double of the same value. -/
def text : Item → String
  | .bool b => boolText b.value
  | .integer i => toString i.toInt
  | .float x => (x.convert .double).text "INF"
  | .double x => x.text "INF"
  | .string s => s
  | .untyped s => s
  | .anyUri s => s
  | .qname q => q.text

/-- Doubles every quotation mark. -/
def doubleQuotes (cs : List Char) : List Char :=
  cs.flatMap fun c => if c == '"' then ['"', '"'] else [c]

/-- The form of an item in the text of a query. -/
def literal : Item → String
  | .bool b => boolText b.value ++ "()"
  | .string s => "\"" ++ String.ofList (doubleQuotes s.toList) ++ "\""
  | .untyped s => "xs:untypedAtomic(\"" ++ s ++ "\")"
  | .anyUri s => "xs:anyURI(\"" ++ s ++ "\")"
  | .qname q => "xs:QName(\"" ++ q.text ++ "\")"
  | .float x => "xs:float(\"" ++ (Item.float x).text ++ "\")"
  | .integer i => (Item.integer i).text
  | .double x => (Item.double x).text

/-- Structural equality: the same kind of item, numbers equal by value, scores included. -/
def same : Item → Item → Bool
  | .bool a, .bool b => a.same b
  | .integer a, .integer b => a == b
  | .float a, .float b => a.equal b
  | .double a, .double b => a.equal b
  | .string a, .string b => a == b
  | .untyped a, .untyped b => a == b
  | .anyUri a, .anyUri b => a == b
  | .qname a, .qname b => a == b
  | _, _ => false

end Item
end QueryExpr
