import QueryExpr.Type.Sequence

/-!
# QueryExpr.Scope

Variables and the names that stand for them. A variable is its number; the name is for display.
-/

namespace QueryExpr

structure Var where
  id : Nat
  name : String
  /-- The declared type, if there is one. -/
  type : Option SeqType
deriving DecidableEq

namespace Var

/-- Two references mean the same variable if their numbers agree. -/
def same (v w : Var) : Bool := v.id == w.id

/-- The declared type, or that of every sequence. -/
def seqType (v : Var) : SeqType := v.type.getD .anyItems

/-- A reference as it is written in a query. -/
def text (v : Var) : String := "$" ++ v.name

end Var

/-- The declared variables, oldest first. -/
structure Scope where
  vars : List Var

namespace Scope

def empty : Scope := ⟨[]⟩

instance : Inhabited Scope := ⟨empty⟩

/-- The greatest number a variable can have. -/
def greatestId : Nat := Nat.pow 2 32 - 1

/-- Declares one more variable, numbered by its place. -/
def declare (s : Scope) (name : String) (type : Option SeqType) : Var × Scope :=
  let v : Var := ⟨min s.vars.length greatestId, name, type⟩
  (v, ⟨s.vars ++ [v]⟩)

/-- The latest variable of a name. -/
def resolve (s : Scope) (name : String) : Option Var :=
  s.vars.reverse.find? (·.name == name)

def get? (s : Scope) (id : Nat) : Option Var :=
  s.vars.find? (·.id == id)

def size (s : Scope) : Nat := s.vars.length

end Scope
end QueryExpr
