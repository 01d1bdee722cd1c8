/-! # Unsigned numbers written in digits

`readDigits` reads the digits of a number that has to stay below a bound.  It looks at the digits
from left to right, so the first offence decides the fault: a character that is no digit, or the
digit at which the number reaches the bound. -/

namespace ProjectFile.Text

/-- Why a text is not the number that was asked for. -/
inductive NumberFault where
  | empty
  | badDigit
  | tooLarge
deriving DecidableEq, Repr

/-- The text of a fault. -/
def NumberFault.message : NumberFault → String
  | .empty => "cannot parse integer from empty string"
  | .badDigit => "invalid digit found in string"
  | .tooLarge => "number too large to fit in target type"

/-- The value of a digit, in a radix up to sixteen; both cases of the letters count. -/
def digitValue? (radix : Nat) (c : Char) : Option Nat :=
  let v := if c.isDigit then some (c.toNat - '0'.toNat)
    else if 'a' ≤ c ∧ c ≤ 'f' then some (c.toNat - 'a'.toNat + 10)
    else if 'A' ≤ c ∧ c ≤ 'F' then some (c.toNat - 'A'.toNat + 10)
    else none
  v.filter (· < radix)

/-- One more digit of a number below `bound`. -/
def pushDigit (radix bound value : Nat) (c : Char) : Except NumberFault Nat :=
  match digitValue? radix c with
  | none => .error .badDigit
  | some d =>
    let next := value * radix + d
    if next < bound then .ok next else .error .tooLarge

/-- The number below `bound` that the digits spell. -/
def readDigits (radix bound : Nat) (s : List Char) : Except NumberFault Nat :=
  if s = [] then .error .empty else s.foldlM (pushDigit radix bound) 0

/-- The number below `bound` that a text spells in decimal, with or without a plus. -/
def unsigned? (bound : Nat) (s : List Char) : Option Nat :=
  let digits := match s with
    | '+' :: digits => digits
    | digits => digits
  (readDigits 10 bound digits).toOption

/-- The values of a 32-bit word lie below this bound. -/
def wordBound : Nat := 4294967296

end ProjectFile.Text
