/-!
# QueryExpr.Binary.Basic

Binary floating-point numbers as exact data.

* `Format`  — a precision and an exponent width; `Format.single` and `Format.double` are used here.
* `Binary`  — a number of a format: not-a-number, an infinity, or a signed natural multiple of the
  smallest positive number of the format (its *unit*).
* `ofBits`, `toBits` — the interchange encoding.
* `compare` — the numeric order: both zeros are equal, not-a-number is unordered.

Every finite number is `units · 2 ^ -scale`, so comparing two numbers is comparing two integers
and an arithmetic operation is an exact integer computation followed by one rounding.
-/

namespace QueryExpr

/-- A binary format: `precision` significant bits (the leading one included) and `width` bits of
exponent. -/
structure Format where
  precision : Nat
  width : Nat
deriving DecidableEq

namespace Format

def single : Format := ⟨24, 8⟩

def double : Format := ⟨53, 11⟩

/-- The smallest positive number of the format is `2 ^ -scale`. -/
def scale (f : Format) : Nat := Nat.pow 2 (f.width - 1) + f.precision - 3

/-- The first power of two, counted in units, that is too large for the format. -/
def limit (f : Format) : Nat := Nat.pow 2 (Nat.pow 2 f.width + f.precision - 3)

/-- The spacing, in units, of the numbers of the format around `u` units. -/
def granule (f : Format) (u : Nat) : Nat := Nat.pow 2 (u.log2 + 1 - f.precision)

/-- A magnitude of `u` units is a number of the format: it is below the limit and a multiple of
the spacing around it. -/
def Fits (f : Format) (u : Nat) : Prop := u < f.limit ∧ u % f.granule u = 0

instance (f : Format) (u : Nat) : Decidable (f.Fits u) :=
  inferInstanceAs (Decidable (_ ∧ _))

theorem limit_pos (f : Format) : 0 < f.limit := Nat.two_pow_pos _

theorem granule_pos (f : Format) (u : Nat) : 0 < f.granule u := Nat.two_pow_pos _

theorem fits_zero (f : Format) : f.Fits 0 := ⟨f.limit_pos, Nat.zero_mod _⟩

end Format

/-- A number of format `f`. A finite one is a sign and a count of units. -/
inductive Binary (f : Format) where
  | nan
  | infinite (negative : Bool)
  | finite (negative : Bool) (units : Nat) (fits : f.Fits units)
deriving DecidableEq

abbrev Single := Binary Format.single

abbrev Double := Binary Format.double

namespace Binary

variable {f : Format}

def zero (negative : Bool) : Binary f := .finite negative 0 f.fits_zero

instance : Inhabited (Binary f) := ⟨zero false⟩

/-- The number of `u` units with the given sign; infinite where the format has no such number. -/
def ofUnits (negative : Bool) (u : Nat) : Binary f :=
  if h : f.Fits u then .finite negative u h else .infinite negative

def isNaN : Binary f → Bool
  | .nan => true
  | _ => false

def isZero : Binary f → Bool
  | .finite _ u _ => u == 0
  | _ => false

/-! ## Interchange encoding -/

/-- Decodes sign, exponent field and fraction. An exponent field of zero holds the numbers below
the smallest normal one, the greatest field the infinities and not-a-number. -/
def ofBits (f : Format) (bits : Nat) : Binary f :=
  let half := Nat.pow 2 (f.precision - 1)
  let fraction := bits % half
  let exponent := bits / half % Nat.pow 2 f.width
  let negative := bits / half / Nat.pow 2 f.width % 2 == 1
  if exponent = Nat.pow 2 f.width - 1 then
    if fraction = 0 then .infinite negative else .nan
  else if exponent = 0 then ofUnits negative fraction
  else ofUnits negative ((half + fraction) * Nat.pow 2 (exponent - 1))

/-- Encodes a number; not-a-number gets the quiet pattern. -/
def toBits : Binary f → Nat
  | .nan => (Nat.pow 2 f.width - 1) * Nat.pow 2 (f.precision - 1) + Nat.pow 2 (f.precision - 2)
  | .infinite negative =>
    (negative.toNat * Nat.pow 2 f.width + (Nat.pow 2 f.width - 1)) * Nat.pow 2 (f.precision - 1)
  | .finite negative u _ =>
    let half := Nat.pow 2 (f.precision - 1)
    let sign := negative.toNat * Nat.pow 2 f.width * half
    if u < half then sign + u
    else sign + (u.log2 + 2 - f.precision) * half + (u / f.granule u - half)

/-! ## Order -/

/-- The position of a number on the line of units; the infinities stand just outside all finite
numbers, and not-a-number has no position. -/
def position : Binary f → Option Int
  | .nan => none
  | .infinite negative => some (if negative then -(f.limit : Int) else f.limit)
  | .finite negative u _ => some (if negative then -(u : Int) else u)

/-- Numeric comparison; `none` where not-a-number takes part. -/
def compare (x y : Binary f) : Option Ordering :=
  match x.position, y.position with
  | some a, some b => some (Ord.compare a b)
  | _, _ => none

/-- Numeric equality: zeros of either sign are equal, not-a-number equals nothing. -/
def equal (x y : Binary f) : Bool := x.compare y == some .eq

def less (x y : Binary f) : Bool := x.compare y == some .lt

def atMost (x y : Binary f) : Bool := x.less y || x.equal y

end Binary
end QueryExpr
