import DocDirectives.Number.Integer

/-! # Double-precision numbers

    A float literal denotes an IEEE 754 binary64 number, held here by its bits, so that equality is
    decidable and nothing depends on the machine. A decimal `n / 10^k` is rounded to the nearest
    binary64 number, a tie to the even significand, and beyond the largest one to infinity. -/

namespace DocDirectives.Number

/-- A binary64 number by its bits. -/
structure Binary64 where
  bits : UInt64
  deriving DecidableEq

/-- The quotient of two numbers rounded to nearest, a tie to even. -/
def roundDiv (n d : Nat) : Nat :=
  let q := n / d
  let r := n % d
  if 2 * r < d then q
  else if d < 2 * r then q + 1
  else if q % 2 = 0 then q else q + 1

namespace Binary64

/-- Value of the sign bit. -/
def signUnit : Nat := Nat.pow 2 63

/-- Value of the lowest bit of the exponent field; the fraction field is below it. -/
def exponentUnit : Nat := Nat.pow 2 52

def signBit (x : Binary64) : Bool := signUnit ≤ x.bits.toNat

/-- The bits without the sign, as a number. Magnitudes are ordered like these. -/
def magnitude (x : Binary64) : Nat := x.bits.toNat % signUnit

/-- The magnitude of infinity; above it are the NaNs. -/
def infinite : Nat := 2047 * exponentUnit

def isNaN (x : Binary64) : Bool := infinite < x.magnitude

def isInfinite (x : Binary64) : Bool := x.magnitude = infinite

/-- The number with this sign and magnitude. -/
def ofMagnitude (minus : Bool) (m : Nat) : Binary64 :=
  ⟨UInt64.ofNat (if minus then signUnit + m else m)⟩

/-- Significand `m` and exponent `q` of a finite magnitude, which is `m * 2^q`. -/
def significand (x : Binary64) : Nat × Int :=
  let e : Nat := x.magnitude / exponentUnit
  let f : Nat := x.magnitude % exponentUnit
  if e = 0 then (f, -1074) else (f + exponentUnit, (e : Int) - 1075)

/-- The largest `e` with `2^e * d ≤ n`, for positive `n` and `d`. -/
def quotientExponent (n d : Nat) : Int :=
  let e : Int := (n.log2 : Int) - (d.log2 : Int)
  if n * Nat.pow 2 (-e).toNat < d * Nat.pow 2 e.toNat then e - 1 else e

/-- The magnitude nearest to `n / d`: with `q` the exponent of the last place, the rounded quotient
    counts units of `2^q`, and a carry into the next power of two is right by itself. -/
def nearest (n d : Nat) : Nat :=
  if n = 0 then 0 else
    let q : Int := max (-1074) (quotientExponent n d - 52)
    let m := roundDiv (n * Nat.pow 2 (-q).toNat) (d * Nat.pow 2 q.toNat)
    min infinite ((q + 1074).toNat * exponentUnit + m)

/-- The value of a float literal: an optional sign, digits, a point, digits. -/
def ofText? (cs : List Char) : Option Binary64 :=
  let (minus, unsigned) := splitSign cs
  let whole := unsigned.takeWhile (· != '.')
  match unsigned.dropWhile (· != '.') with
  | '.' :: fraction =>
    if isDigits whole && isDigits fraction then
      some (ofMagnitude minus
        (nearest (ofDigits (whole ++ fraction)) (Nat.pow 10 fraction.length)))
    else none
  | _ => none

end Binary64

end DocDirectives.Number
