import QueryExpr.Explain

/-!
# QueryExpr.Fingerprint.Encoding

Plans as bytes. Every kind of part has a tag, every text its length in front, and every list its
number of entries, so that no two plans have the same bytes.
-/

namespace QueryExpr

/-- A length in four bytes, the greatest first; beyond four bytes it stays at the greatest. -/
def lengthBytes (n : Nat) : List UInt8 :=
  let m := min n (Nat.pow 2 32 - 1)
  [UInt8.ofNat (m / Nat.pow 256 3), UInt8.ofNat (m / Nat.pow 256 2), UInt8.ofNat (m / 256),
   UInt8.ofNat m]

/-- A text with its length in front. -/
def textBytes (s : String) : List UInt8 :=
  let bytes := s.toUTF8.toList
  lengthBytes bytes.length ++ bytes

def attributeBytes : List (String × String) → List UInt8
  | [] => []
  | (k, v) :: as => textBytes k ++ textBytes v ++ attributeBytes as

mutual

def PlanNode.bytes : PlanNode → List UInt8
  | .node n as cs =>
    0x10 :: textBytes n ++ lengthBytes as.length ++ attributeBytes as ++
      lengthBytes cs.length ++ nodesBytes cs

def nodesBytes : List PlanNode → List UInt8
  | [] => []
  | p :: ps => p.bytes ++ nodesBytes ps

end

mutual

def IndexPlan.bytes : IndexPlan → List UInt8
  | .lookup key => 0x20 :: textBytes key
  | .intersect ps => 0x21 :: lengthBytes ps.length ++ indexPlansBytes ps
  | .union ps => 0x22 :: lengthBytes ps.length ++ indexPlansBytes ps
  | .empty => [0x23]

def indexPlansBytes : List IndexPlan → List UInt8
  | [] => []
  | p :: ps => p.bytes ++ indexPlansBytes ps

end

namespace Plan

/-- What stands in front of every plan. -/
def header : List UInt8 := "quernfp:v1".toUTF8.toList

/-- The bytes of a plan. -/
def bytes (p : Plan) : List UInt8 :=
  header ++ 0x01 :: p.root.bytes ++
    (match p.index with
    | some i => 0x02 :: i.bytes
    | none => [0x03])

end Plan
end QueryExpr
