/-! # Decimals rounded to double precision

A number written in decimal is kept as it was written; `Decimal.toBinary64` is the nearest number
of 64-bit binary floating point, a tie going to the even mantissa. -/

namespace ProjectFile

/-- A number `digits * 10 ^ exponent`, with a sign. -/
structure Decimal where
  negative : Bool := false
  digits : Nat
  exponent : Int
deriving DecidableEq, Repr

/-- The size of a number of 64-bit binary floating point. -/
inductive Binary64 where
  | zero
  /-- The number `mantissa * 2 ^ exponent`. -/
  | finite (mantissa : Nat) (exponent : Int)
  | infinite
deriving DecidableEq, Repr

namespace Decimal

/-- A positive power as a fraction. -/
def powerFraction (base : Nat) (exponent : Int) : Nat × Nat :=
  if 0 ≤ exponent then (base.pow exponent.toNat, 1) else (1, base.pow (-exponent).toNat)

/-- The least mantissa of 53 bits. -/
def leastMantissa : Nat := Nat.pow 2 52

/-- The quotient rounded to the nearest number, a tie going to the even one. -/
def roundDiv (num den : Nat) : Nat :=
  let q := num / den
  let r := num % den
  if 2 * r < den then q
  else if den < 2 * r then q + 1
  else q + q % 2

/-- The fraction in units of `2 ^ exponent`. -/
def scale (num den : Nat) (exponent : Int) : Nat × Nat :=
  let (p, q) := powerFraction 2 exponent
  (num * q, den * p)

/-- The exponent of the unit in the last place of a positive fraction: it leaves a mantissa of 53
    bits, unless that needs an exponent below the least one. -/
def unitExponent (num den : Nat) : Int :=
  let guess : Int := (Nat.log2 num : Int) - (Nat.log2 den : Int) - 52
  -- The guess is exact or one too high.
  let (p, q) := scale num den guess
  max (if p / q < leastMantissa then guess - 1 else guess) (-1074)

/-- The nearest number of double precision to a positive fraction. -/
def roundFraction (num den : Nat) : Binary64 :=
  let exponent := unitExponent num den
  let (p, q) := scale num den exponent
  let mantissa := roundDiv p q
  -- Rounding may reach the next power of two.
  if mantissa = 0 then .zero
  else if mantissa = 2 * leastMantissa then
    if exponent + 1 ≤ 971 then .finite leastMantissa (exponent + 1) else .infinite
  else if exponent ≤ 971 then .finite mantissa exponent
  else .infinite

/-- The number of digits. -/
def width (d : Decimal) : Nat :=
  (Nat.toDigits 10 d.digits).length

/-- The size of a decimal, rounded to double precision.  Sizes far outside of the range are not
    computed. -/
def toBinary64 (d : Decimal) : Binary64 :=
  let magnitude := d.exponent + d.width
  if d.digits = 0 ∨ magnitude < -400 then .zero
  else if 400 < magnitude then .infinite
  else
    let (p, q) := powerFraction 10 d.exponent
    roundFraction (d.digits * p) q

end Decimal

end ProjectFile
