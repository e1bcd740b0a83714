import QueryExpr.Binary.Basic

/-!
# QueryExpr.Binary.Shortest

The text of a binary number: the fewest decimal digits that read back to it, written without an
exponent.

* `Interval.holds` — the decimals that read back to a number.
* `Interval.shortest` — the one with the fewest digits; of two, the closer; on a tie, the upper.
* `Binary.text` — the written form.

All decimals are counted in units of `10 ^ -places`, fine enough for the number itself and for
both ends of its interval to be whole counts. The search runs from the coarsest grid down and
always ends, since the number itself lies on the finest one.
-/

namespace QueryExpr

/-- The decimals that round to `centre`: those between the halfway points to its neighbours, the
ends themselves only if `closed`. -/
structure Interval where
  low : Nat
  centre : Nat
  high : Nat
  closed : Bool

namespace Interval

def holds (t : Interval) (n : Nat) : Bool :=
  (t.low < n && n < t.high) || (t.closed && (n == t.low || n == t.high))

/-- The member of the interval on the coarsest grid `10 ^ j`, for `j` at most the given power. -/
def shortest (t : Interval) : Nat → Nat
  | 0 => t.centre
  | j + 1 =>
    let step := Nat.pow 10 (j + 1)
    let down := t.centre / step * step
    let up := down + step
    match t.holds down, t.holds up with
    | true, true => if 2 * t.centre < down + up then down else up
    | true, false => down
    | false, true => up
    | false, false => shortest t j

end Interval

/-- Decimal places that express every number of the format and the ends of its interval. -/
def Format.places (f : Format) : Nat := f.scale + 2

/-- The interval of the number of `u` units. The neighbour below a power of two is half as far
away as the one above, except among the smallest numbers. -/
def Format.interval (f : Format) (u : Nat) : Interval :=
  let g := f.granule u
  let unit := Nat.pow 5 f.scale
  let narrow := decide (1 < g) && u == Nat.pow 2 u.log2
  { low := (if narrow then 100 * u - 25 * g else 100 * u - 50 * g) * unit
    centre := 100 * u * unit
    high := (100 * u + 50 * g) * unit
    closed := u / g % 2 == 0 }

/-- The digits of `n · 10 ^ -places` without superfluous zeros at the end. -/
def positional (places n : Nat) : String :=
  let fraction := (toString (n % Nat.pow 10 places)).toList
  let padded := List.replicate (places - fraction.length) '0' ++ fraction
  let shown := (padded.reverse.dropWhile (· == '0')).reverse
  let whole := toString (n / Nat.pow 10 places)
  if shown.isEmpty then whole else whole ++ "." ++ String.ofList shown

namespace Binary

variable {f : Format}

/-- The text of a number, with the given word for an infinity. A negative zero keeps its sign. -/
def text (infinity : String) : Binary f → String
  | .nan => "NaN"
  | .infinite negative => if negative then "-" ++ infinity else infinity
  | .finite negative u _ =>
    let t := f.interval u
    let digits := if u = 0 then "0"
      else positional f.places (t.shortest (toString t.centre).length)
    if negative then "-" ++ digits else digits

end Binary
end QueryExpr
