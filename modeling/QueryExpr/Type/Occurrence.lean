/-!
# QueryExpr.Type.Occurrence

How many items a sequence may have: a least number and, unless it is unbounded, a greatest one.
-/

namespace QueryExpr

structure Occurrence where
  min : Nat
  /-- `none` where there is no upper bound. -/
  max : Option Nat
deriving DecidableEq

namespace Occurrence

def zero : Occurrence := ⟨0, some 0⟩

def one : Occurrence := ⟨1, some 1⟩

def zeroOrOne : Occurrence := ⟨0, some 1⟩

def zeroOrMore : Occurrence := ⟨0, none⟩

def oneOrMore : Occurrence := ⟨1, none⟩

/-- Whether a sequence of `n` items is within the bounds. -/
def admits (o : Occurrence) (n : Nat) : Bool :=
  o.min ≤ n && (match o.max with | none => true | some m => n ≤ m)

def atMostOne (o : Occurrence) : Bool :=
  match o.max with
  | none => false
  | some m => m ≤ 1

/-- The narrowest bounds that contain both. -/
def join (o p : Occurrence) : Occurrence where
  min := Min.min o.min p.min
  max := match o.max, p.max with
    | some m, some n => some (Max.max m n)
    | _, _ => none

/-- The usual indicators for the usual bounds, the numbers in braces for the others. -/
def text (o : Occurrence) : String :=
  match o.min, o.max with
  | 1, some 1 => ""
  | 0, some 1 => "?"
  | 0, none => "*"
  | 1, none => "+"
  | m, none => "\x7b" ++ toString m ++ ",\x7d"
  | m, some n => "\x7b" ++ toString m ++ "," ++ toString n ++ "\x7d"

end Occurrence
end QueryExpr
