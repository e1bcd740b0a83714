/-!
# QueryExpr.Type.Atom

Item types. `item`, `anyAtomic` and `numeric` are abstract: no item has one of them as its own
type.

* `instanceOf` — the order: every instance of one type is an instance of the other.
* `join` — the closest common supertype.
-/

namespace QueryExpr

inductive Atom where
  | item
  | anyAtomic
  | untyped
  | string
  | boolean
  | numeric
  | integer
  | float
  | double
  | anyUri
  | qname
deriving DecidableEq

namespace Atom

/-- All item types, the most general first. -/
def all : List Atom :=
  [.item, .anyAtomic, .untyped, .string, .boolean, .numeric, .integer, .float, .double, .anyUri,
   .qname]

def name : Atom → String
  | .item => "item()"
  | .anyAtomic => "xs:anyAtomicType"
  | .untyped => "xs:untypedAtomic"
  | .string => "xs:string"
  | .boolean => "xs:boolean"
  | .numeric => "xs:numeric"
  | .integer => "xs:integer"
  | .float => "xs:float"
  | .double => "xs:double"
  | .anyUri => "xs:anyURI"
  | .qname => "xs:QName"

def isNumeric : Atom → Bool
  | .numeric | .integer | .float | .double => true
  | _ => false

/-- Whether every instance of the first type is an instance of the second. -/
def instanceOf : Atom → Atom → Bool
  | _, .item => true
  | .item, _ => false
  | _, .anyAtomic => true
  | a, .numeric => a.isNumeric
  | a, b => a == b

/-- Abstract types are no target of a cast. -/
def isCastable : Atom → Bool
  | .item | .anyAtomic | .numeric => false
  | _ => true

/-- The closest common supertype of two item types. -/
def join (a b : Atom) : Atom :=
  if a = b then a
  else if a.isNumeric && b.isNumeric then .numeric
  else if a = .item || b = .item then .item
  else .anyAtomic

end Atom
end QueryExpr
