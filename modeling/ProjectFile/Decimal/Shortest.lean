import ProjectFile.Decimal.Binary64

/-! # The shortest decimal of a number of double precision

A number of double precision is written with the fewest digits that are nearer to it than to any
other such number; of several with as few digits, the nearest is taken, and of two that are as near,
the larger one.  The notation is positional and always has a decimal point. -/

namespace ProjectFile.Decimal

/-- The fractions that round to a number of double precision: from `low` to `high`, over one
    denominator, with the ends if the mantissa is even. -/
structure Interval where
  low : Nat
  value : Nat
  high : Nat
  den : Nat
  closed : Bool

/-- The interval of a number.  Below a power of two the numbers are twice as dense. -/
def interval (mantissa : Nat) (exponent : Int) : Interval :=
  let (p, q) := powerFraction 2 (exponent - 2)
  let step := if mantissa = leastMantissa ∧ -1074 < exponent then 1 else 2
  { low := (4 * mantissa - step) * p
    value := 4 * mantissa * p
    high := (4 * mantissa + 2) * p
    den := q
    closed := mantissa % 2 = 0 }

/-- Whether `c * 10 ^ k` rounds to the number of the interval. -/
def Interval.admits (i : Interval) (k : Int) (c : Nat) : Bool :=
  let (p, q) := powerFraction 10 k
  let point := c * p * i.den
  if i.closed then i.low * q ≤ point && point ≤ i.high * q
  else i.low * q < point && point < i.high * q

/-- The nearer of the two neighbours of the value on the grid of `10 ^ k` that round to it; of two
    that are as near, the upper one. -/
def Interval.onGrid? (i : Interval) (k : Int) : Option Nat :=
  let (p, q) := powerFraction 10 k
  let below := i.value * q / (i.den * p)
  let above := below + 1
  match i.admits k below && below != 0, i.admits k above with
  | true, true =>
    if i.value * q * 2 < (below + above) * (p * i.den) then some below else some above
  | true, false => some below
  | false, true => some above
  | false, false => none

/-- The first grid, from `10 ^ k` down, that has a number of the interval. -/
def Interval.search (i : Interval) : Nat → Int → Nat × Int
  | 0, k => (0, k)
  | fuel + 1, k =>
    match i.onGrid? k with
    | some c => (c, k)
    | none => i.search fuel (k - 1)

/-- The digits of a number, and the exponent of the last of them. -/
def shortest (mantissa : Nat) (exponent : Int) : Nat × Int :=
  let i := interval mantissa exponent
  -- The first digit is no further down than the 324th place, and seventeen digits suffice.
  i.search 800 ((Nat.toDigits 10 (i.value / i.den)).length : Int)

/-- The positional notation of `digits * 10 ^ exponent`, with at least one digit on either side
    of the point. -/
def positional (digits : Nat) (exponent : Int) : String :=
  let s := Nat.toDigits 10 digits
  if 0 ≤ exponent then String.ofList (s ++ List.replicate exponent.toNat '0') ++ ".0"
  else
    let places := (-exponent).toNat
    let padded := List.replicate (places + 1 - s.length) '0' ++ s
    String.ofList (padded.take (padded.length - places)) ++ "." ++
      String.ofList (padded.drop (padded.length - places))

/-- The text of a size. -/
def renderSize : Binary64 → String
  | .zero => "0.0"
  | .finite mantissa exponent =>
    let (digits, k) := shortest mantissa exponent
    positional digits k
  | .infinite => "inf"

/-- The text of a decimal that is rounded to double precision. -/
def render (d : Decimal) : String :=
  (if d.negative then "-" else "") ++ renderSize d.toBinary64

end ProjectFile.Decimal
