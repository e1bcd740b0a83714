import QueryExpr.Type.Atom
import QueryExpr.Type.Occurrence

/-!
# QueryExpr.Type.Sequence

Sequence types: the type of every item, and how many items there may be.
-/

namespace QueryExpr

structure SeqType where
  atom : Atom
  occurs : Occurrence
deriving DecidableEq

namespace SeqType

def one (a : Atom) : SeqType := ⟨a, .one⟩

def zeroOrOne (a : Atom) : SeqType := ⟨a, .zeroOrOne⟩

/-- Exactly one boolean. -/
def booleanOne : SeqType := .one .boolean

/-- The type of the empty sequence. -/
def empty : SeqType := ⟨.item, .zero⟩

/-- The type of every sequence. -/
def anyItems : SeqType := ⟨.item, .zeroOrMore⟩

def isOne (t : SeqType) : Bool := t.occurs == .one

def atMostOne (t : SeqType) : Bool := t.occurs.atMostOne

def isEmpty (t : SeqType) : Bool := t.occurs.max == some 0

/-- The type of a result that comes from one of two branches. A branch without items has no say in
the item type. -/
def join (s t : SeqType) : SeqType where
  atom := if s.isEmpty then t.atom else if t.isEmpty then s.atom else s.atom.join t.atom
  occurs := s.occurs.join t.occurs

def text (t : SeqType) : String :=
  if t.isEmpty then "empty-sequence()" else t.atom.name ++ t.occurs.text

end SeqType
end QueryExpr
