import QueryExpr.Binary.Round
import QueryExpr.Binary.Shortest

/-!
# QueryExpr.Score

The relevance of a true answer, a number between zero and one. Zero means unscored; plain boolean
logic never produces anything else.
-/

namespace QueryExpr

structure Score where
  value : Double
deriving DecidableEq

namespace Score

/-- The number one, which is `2 ^ scale` units. -/
def unit : Double := Binary.ofUnits false (Nat.pow 2 Format.double.scale)

def zero : Score := ⟨.zero false⟩

/-- A score is a number from zero to one. -/
def ofDouble? (x : Double) : Option Score :=
  if (Binary.zero false).atMost x && x.atMost unit then some ⟨x⟩ else none

def isZero (s : Score) : Bool := s.value.isZero

/-- The score of two conditions that both hold: an unscored one is neutral, otherwise the
product. -/
def both (s t : Score) : Score :=
  if s.isZero then t else if t.isZero then s else ⟨s.value.mul t.value⟩

/-- The score of two conditions of which either holds: the probabilistic sum `(s + t) - s · t`,
the sum rounded first and the rest rounded once. -/
def either (s t : Score) : Score :=
  ⟨t.value.mulAdd s.value.neg (s.value.add t.value)⟩

/-- Numeric equality of two scores. -/
def equal (s t : Score) : Bool := s.value.equal t.value

def text (s : Score) : String := s.value.text "inf"

end Score
end QueryExpr
