import QueryExpr.Binary.Basic

/-!
# QueryExpr.Binary.Round

Arithmetic on binary numbers: the exact result, rounded once to the nearest number of the format,
a tie going to the neighbour with an even significand.

* `Format.nearest` — the rounding, on ratios of naturals.
* `mul`, `add`, `mulAdd` — product, sum and fused multiply-add.
* `convert`, `ofInt`, `truncate` — between formats and to and from integers.
-/

namespace QueryExpr

/-- The multiple of the local spacing that is nearest to `num / den` units, ties to even. -/
def Format.nearest (f : Format) (num den : Nat) : Nat :=
  let g := f.granule (num / den)
  let step := g * den
  let q := num / step
  let r := num % step
  if 2 * r > step || (2 * r == step && q % 2 == 1) then (q + 1) * g else q * g

namespace Binary

variable {f : Format}

/-- The number of `f` nearest to `num / den` units. -/
def ofRatio (negative : Bool) (num den : Nat) : Binary f :=
  ofUnits negative (f.nearest num den)

/-- The number nearest to the sum of two signed amounts of `1 / den` units. A sum of exactly zero
is negative only where both amounts are. -/
def ofSum (n₁ : Bool) (a : Nat) (n₂ : Bool) (b : Nat) (den : Nat) : Binary f :=
  let sum : Int := (if n₁ then -(a : Int) else a) + (if n₂ then -(b : Int) else b)
  if sum = 0 then zero (n₁ && n₂) else ofRatio (sum < 0) sum.natAbs den

def neg : Binary f → Binary f
  | .nan => .nan
  | .infinite n => .infinite !n
  | .finite n u h => .finite (!n) u h

/-- The product. An infinity times zero is not a number. -/
def mul : Binary f → Binary f → Binary f
  | .nan, _ => .nan
  | _, .nan => .nan
  | .infinite n, .infinite m => .infinite (n ^^ m)
  | .infinite n, .finite m u _ => if u = 0 then .nan else .infinite (n ^^ m)
  | .finite n u _, .infinite m => if u = 0 then .nan else .infinite (n ^^ m)
  | .finite n u _, .finite m v _ => ofRatio (n ^^ m) (u * v) (Nat.pow 2 f.scale)

/-- The sum. Opposite infinities have none. -/
def add : Binary f → Binary f → Binary f
  | .nan, _ => .nan
  | _, .nan => .nan
  | .infinite n, .infinite m => if n = m then .infinite n else .nan
  | .infinite n, .finite _ _ _ => .infinite n
  | .finite _ _ _, .infinite m => .infinite m
  | .finite n u _, .finite m v _ => ofSum n u m v 1

/-- `x * y + z` with a single rounding. -/
def mulAdd (x y z : Binary f) : Binary f :=
  match x, y, z with
  | .finite n u _, .finite m v _, .finite k w _ =>
    ofSum (n ^^ m) (u * v) k (w * Nat.pow 2 f.scale) (Nat.pow 2 f.scale)
  | .finite _ _ _, .finite _ _ _, z => z
  | x, y, z => (x.mul y).add z

/-- The nearest number of another format; exact where the target is the wider one. -/
def convert (g : Format) : Binary f → Binary g
  | .nan => .nan
  | .infinite n => .infinite n
  | .finite n u _ => ofRatio n (u * Nat.pow 2 g.scale) (Nat.pow 2 f.scale)

/-- The number nearest to an integer. -/
def ofInt (i : Int) : Binary f := ofRatio (i < 0) (i.natAbs * Nat.pow 2 f.scale) 1

/-- The integer part of a finite number, rounding toward zero. -/
def truncate : Binary f → Option Int
  | .finite n u _ =>
    let whole : Int := (u / Nat.pow 2 f.scale : Nat)
    some (if n then -whole else whole)
  | _ => none

end Binary
end QueryExpr
