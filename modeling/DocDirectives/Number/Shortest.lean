import DocDirectives.Number.Binary64

/-! # Shortest decimal digits

    The digits written for a binary64 number are the fewest that read back as it, and of those the
    nearest. Every real in an interval around the number rounds to it, and the ends belong to the
    interval when the significand is even. A decimal grid of `n` digits has a point in the interval
    only if one of the two neighbours of the number on that grid is in it, so the grids of
    1, 2, …, 17 digits are tried in turn. A number may stand half-way between its neighbours: a
    `Tie` says which of them is taken then. A `Layout` says that, and which exponents are written
    positionally. -/

namespace DocDirectives.Number

/-- Which of two equally near decimals is taken: the one with an even last digit, or the larger. -/
inductive Tie where
  | toEven
  | up
  deriving DecidableEq

/-- Whether a tie between `c` and `c + 1` goes to `c`. -/
def Tie.staysAt : Tie → Nat → Bool
  | toEven, c => c % 2 == 0
  | up, _ => false

/-- A decimal `0.d₁d₂…dₙ * 10^point`. -/
structure Digits where
  digits : List Char
  point : Int
  deriving DecidableEq

/-- The fraction `n / d`, scaled by a power of ten. -/
def scaled (n d : Nat) (e : Int) : Nat × Nat :=
  (n * Nat.pow 10 e.toNat, d * Nat.pow 10 (-e).toNat)

/-- The interval of reals that round to a number, as numerators over a common denominator. -/
structure Rounding where
  low : Nat
  value : Nat
  high : Nat
  denominator : Nat
  closed : Bool

namespace Rounding

/-- The interval of a finite number. Its lower half is a quarter of a unit at a power of two, where
    the spacing below is halved. -/
def of (x : Binary64) : Rounding :=
  let (m, q) := x.significand
  let up := Nat.pow 2 (q - 2).toNat
  let narrow := m = Binary64.exponentUnit ∧ q ≠ -1074
  { low := (4 * m - if narrow then 1 else 2) * up
    value := 4 * m * up
    high := (4 * m + 2) * up
    denominator := Nat.pow 2 (2 - q).toNat
    closed := m % 2 = 0 }

/-- Whether the point `c / 10^e` lies in the interval. -/
def contains (r : Rounding) (c : Nat) (e : Int) : Bool :=
  let (p, d) := scaled c 1 (-e)
  let point := p * r.denominator
  if r.closed then r.low * d ≤ point && point ≤ r.high * d
  else r.low * d < point && point < r.high * d

/-- The point `k` with `10^(k-1) ≤ value < 10^k`. -/
def point (r : Rounding) : Int :=
  if r.denominator ≤ r.value then ((digits (r.value / r.denominator)).length : Int)
  else
    match (List.range 330).find? fun j => r.denominator ≤ r.value * Nat.pow 10 j with
    | some j => 1 - (j : Int)
    | none => -330

/-- The neighbours of the number on the grid of `n` digits that lie in the interval, nearest first,
    as multiples of `10^(point - n)`. -/
def onGrid (r : Rounding) (tie : Tie) (n : Nat) : List Nat :=
  let e : Int := (n : Int) - r.point
  let (p, d) := scaled r.value r.denominator e
  let c := p / d
  let twice := 2 * (p % d)
  let below := twice < d || (twice == d && tie.staysAt c)
  let order := if below then [c, c + 1] else [c + 1, c]
  order.filter fun c => r.contains c e

end Rounding

/-- Write the grid multiple `c` of `10^(point - n)` without trailing zeros. -/
def Digits.ofGrid (c n : Nat) (point : Int) : Digits :=
  let all := Number.digits c
  { digits := (all.reverse.dropWhile (· == '0')).reverse
    point := point - (n : Int) + (all.length : Int) }

/-- The shortest digits of a finite number other than zero. -/
def shortest (tie : Tie) (x : Binary64) : Digits :=
  let r := Rounding.of x
  match (List.range 17).findSome? fun k => (r.onGrid tie (k + 1)).head?.map fun c => (c, k + 1) with
  | some (c, n) => Digits.ofGrid c n r.point
  | none => { digits := ['0'], point := 1 }

/-- Where positional notation begins and ends: points from `lowest` to `highest` are written with a
    decimal point, all others with an exponent, which may show its plus sign. -/
structure Layout where
  lowest : Int
  highest : Int
  plus : Bool
  tie : Tie

namespace Layout

/-- Digits in positional notation, with at least one digit on either side of the point. -/
def positional (d : Digits) : List Char :=
  let n := d.digits.length
  if d.point ≤ 0 then ['0', '.'] ++ List.replicate (-d.point).toNat '0' ++ d.digits
  else
    let k := d.point.toNat
    if n ≤ k then d.digits ++ List.replicate (k - n) '0' ++ ['.', '0']
    else d.digits.take k ++ ['.'] ++ d.digits.drop k

/-- Digits with an exponent: one digit, the others after a point if there are any, and the power of
    ten of the first digit. -/
def exponential (plus : Bool) (d : Digits) : List Char :=
  let tail := d.digits.drop 1
  d.digits.take 1 ++ (if tail.isEmpty then [] else '.' :: tail) ++ ['e'] ++
    (if plus && 1 ≤ d.point then ['+'] else []) ++ Integer.text (d.point - 1)

/-- The text of a finite number. -/
def finite (l : Layout) (x : Binary64) : List Char :=
  let body :=
    if x.magnitude = 0 then ['0', '.', '0']
    else
      let d := shortest l.tie x
      if l.lowest ≤ d.point ∧ d.point ≤ l.highest then positional d
      else exponential l.plus d
  if x.signBit then '-' :: body else body

end Layout

end DocDirectives.Number
