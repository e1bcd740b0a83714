import QueryExpr.Binary.Round

/-!
# QueryExpr.Binary.Decimal

Decimal numerals: an optional sign, digits with at most one point among them, and an optional
exponent.

* `Numeral.read?` — the grammar.
* `Numeral.toBinary` — the number of a format nearest to a numeral.
-/

namespace QueryExpr

/-- The value `digits · 10 ^ exponent` with a sign. -/
structure Numeral where
  negative : Bool
  digits : Nat
  exponent : Int
deriving DecidableEq

/-- The value of a row of decimal digits. -/
def decimalValue (ds : List Char) : Nat :=
  ds.foldl (fun n d => 10 * n + (d.toNat - '0'.toNat)) 0

/-- Splits off an optional sign; `true` stands for a minus. -/
def splitSign : List Char → Bool × List Char
  | '-' :: cs => (true, cs)
  | '+' :: cs => (false, cs)
  | cs => (false, cs)

namespace Numeral

/-- The exponent part: nothing, or a letter, an optional sign and at least one digit. -/
def readExponent? : List Char → Option Int
  | [] => some 0
  | c :: cs =>
    if c = 'e' || c = 'E' then
      let (negative, ds) := splitSign cs
      if ds.isEmpty || !ds.all Char.isDigit then none
      else some (if negative then -(decimalValue ds : Int) else decimalValue ds)
    else none

/-- Reads a whole text as a numeral. The point may stand at either end of the digits but not
alone. -/
def read? (cs : List Char) : Option Numeral :=
  let (negative, cs) := splitSign cs
  let whole := cs.takeWhile Char.isDigit
  let rest := cs.dropWhile Char.isDigit
  let (places, rest) := match rest with
    | '.' :: r => (r.takeWhile Char.isDigit, r.dropWhile Char.isDigit)
    | r => ([], r)
  if whole.isEmpty && places.isEmpty then none
  else
    match readExponent? rest with
    | none => none
    | some e => some ⟨negative, decimalValue (whole ++ places), e - places.length⟩

/-- Powers of ten beyond this one are outside every format in use here, on either side. -/
def reach : Int := 400

/-- The number nearest to a numeral: zero or infinite where the numeral is out of reach. -/
def toBinary (f : Format) (n : Numeral) : Binary f :=
  let magnitude := n.exponent + (toString n.digits).length
  if n.digits = 0 || magnitude < -reach then .zero n.negative
  else if magnitude > reach then .infinite n.negative
  else .ofRatio n.negative (n.digits * Nat.pow 10 n.exponent.toNat * Nat.pow 2 f.scale)
    (Nat.pow 10 (-n.exponent).toNat)

end Numeral
end QueryExpr
