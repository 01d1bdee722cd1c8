import ProjectFile.Text.Number
import ProjectFile.Toml.Value

/-! # Numbers, dates and truth values of a settings file

A scalar other than a string is a run of characters that is read as a whole. -/

namespace ProjectFile.Toml

open ProjectFile.Text

/-! ## Numbers -/

/-- Whether a text is digits, with single underscores between digits. -/
def isDigits (radix : Nat) : List Char → Bool
  | [] => false
  | [c] => (digitValue? radix c).isSome
  | c :: '_' :: rest => (digitValue? radix c).isSome && isDigits radix rest
  | c :: rest => (digitValue? radix c).isSome && isDigits radix rest

/-- The value of digits, whatever underscores are between them. -/
def digitsValue (radix : Nat) (s : List Char) : Nat :=
  s.foldl (fun n c => match digitValue? radix c with | some d => n * radix + d | none => n) 0

/-- Whether a text is a whole number without a sign: digits, without a zero at their start that
    is not the only digit. -/
def isWhole (s : List Char) : Bool :=
  isDigits 10 s && (s.head? != some '0' || s.length == 1)

/-- A sign at the front of a text, and whether it is a minus. -/
def splitSign : List Char → Bool × List Char
  | '+' :: rest => (false, rest)
  | '-' :: rest => (true, rest)
  | s => (false, s)

/-- A whole number in a radix other than ten. -/
def prefixed? : List Char → Option (Nat × List Char)
  | '0' :: 'x' :: digits => some (16, digits)
  | '0' :: 'o' :: digits => some (8, digits)
  | '0' :: 'b' :: digits => some (2, digits)
  | _ => none

/-- A whole number. -/
def integer? (s : List Char) : Option Int :=
  match prefixed? s with
  | some (radix, digits) =>
    if isDigits radix digits then some (digitsValue radix digits) else none
  | none =>
    let (negative, digits) := splitSign s
    if isWhole digits then
      let n := digitsValue 10 digits
      some (if negative then -n else n)
    else none

/-- The exponent of a floating point number: what follows its `e`, or none. -/
def exponent? : List Char → Option Int
  | [] => some 0
  | _ :: s =>
    let (negative, digits) := splitSign s
    if isDigits 10 digits then
      let n := digitsValue 10 digits
      some (if negative then -n else n)
    else none

/-- The digits after the point of a floating point number, or none. -/
def fraction? : List Char → Option (List Char)
  | [] => some []
  | _ :: digits => if isDigits 10 digits then some (digits.filter (· != '_')) else none

/-- A finite floating point number without its sign: a whole number and a fraction, an exponent,
    or both. -/
def finite? (negative : Bool) (s : List Char) : Option Decimal := do
  let isMark (c : Char) : Bool := c == 'e' || c == 'E'
  let mantissa := s.takeWhile fun c => !isMark c
  let tail := s.dropWhile fun c => !isMark c
  let whole := mantissa.takeWhile (· != '.')
  let rest := mantissa.dropWhile (· != '.')
  -- A whole number alone is no floating point number.
  guard (isWhole whole && !(rest.isEmpty && tail.isEmpty))
  let fraction ← fraction? rest
  let exponent ← exponent? tail
  some
    -- The digits are read as one number, which the fraction moves to the right place.
    { negative
      digits := digitsValue 10 (whole ++ fraction)
      exponent := exponent - fraction.length }

/-- A floating point number. -/
def float? (s : List Char) : Option FloatText :=
  let (negative, size) := splitSign s
  if size = "inf".toList then some (.infinite negative)
  else if size = "nan".toList then some .nan
  else (finite? negative size).map .finite

/-! ## Dates and times -/

/-- A number of exactly `n` decimal digits at the front of a text. -/
def field? (n : Nat) (s : List Char) : Option (Nat × List Char) :=
  let digits := s.take n
  if digits.length = n ∧ digits.all Char.isDigit then some (digitsValue 10 digits, s.drop n)
  else none

/-- The text after a character at its front. -/
def after? (c : Char) : List Char → Option (List Char)
  | d :: rest => if d = c then some rest else none
  | [] => none

/-- The number of days of a month. -/
def daysOf (year month : Nat) : Nat :=
  if month = 2 then
    if year % 4 = 0 ∧ (year % 100 ≠ 0 ∨ year % 400 = 0) then 29 else 28
  else if month = 4 ∨ month = 6 ∨ month = 9 ∨ month = 11 then 30
  else 31

/-- What follows a date at the front of a text. -/
def afterDate? (s : List Char) : Option (List Char) := do
  let (year, s) ← field? 4 s
  let s ← after? '-' s
  let (month, s) ← field? 2 s
  let s ← after? '-' s
  let (day, s) ← field? 2 s
  guard (1 ≤ month ∧ month ≤ 12 ∧ 1 ≤ day ∧ day ≤ daysOf year month)
  some s

/-- What follows the fraction of a second, which may be left out. -/
def afterFraction? : List Char → Option (List Char)
  | '.' :: s => if s.head?.any Char.isDigit then some (s.dropWhile Char.isDigit) else none
  | s => some s

/-- What follows the seconds of a time, which may be left out. -/
def afterSeconds? : List Char → Option (List Char)
  | ':' :: s => do
    let (second, s) ← field? 2 s
    guard (second ≤ 60)
    afterFraction? s
  | s => some s

/-- What follows a time at the front of a text. -/
def afterTime? (s : List Char) : Option (List Char) := do
  let (hour, s) ← field? 2 s
  let s ← after? ':' s
  let (minute, s) ← field? 2 s
  guard (hour ≤ 23 ∧ minute ≤ 59)
  afterSeconds? s

/-- Whether a text is the offset of a time, or nothing. -/
def isOffset (s : List Char) : Bool :=
  match s with
  | [] => true
  | ['Z'] => true
  | ['z'] => true
  | c :: rest =>
    (c == '+' || c == '-') &&
      match field? 2 rest with
      | some (hour, ':' :: rest) =>
        match field? 2 rest with
        | some (minute, []) => hour ≤ 23 && minute ≤ 59
        | _ => false
      | _ => false

/-- Whether a text is a time with an offset or without one. -/
def isOffsetTime (s : List Char) : Bool :=
  match afterTime? s with
  | some rest => isOffset rest
  | none => false

/-- Whether a text is a date, a time, or both. -/
def isDatetime (s : List Char) : Bool :=
  match afterDate? s with
  | some [] => true
  | some (c :: time) => (c == 'T' || c == 't') && isOffsetTime time
  | none => decide (afterTime? s = some [])

/-! ## Scalars -/

/-- Whether a character may stand in a scalar. -/
def inScalar (c : Char) : Bool :=
  c.isAlphanum || "_+-.:".toList.contains c

/-- The value of a scalar. -/
def scalarValue? (s : List Char) : Option Value :=
  if s = "true".toList then some (.boolean true)
  else if s = "false".toList then some (.boolean false)
  else if isDatetime s then some .datetime
  else
    match integer? s with
    | some n => some (.integer n)
    | none => (float? s).map .float

/-- A scalar at the front of a text.  A date and a time may be parted by a space. -/
def scalar? (s : List Char) : Option (Value × List Char) := do
  let word := s.takeWhile inScalar
  let rest := s.dropWhile inScalar
  match rest with
  | ' ' :: c :: after =>
    if afterDate? word = some [] && c.isDigit then
      guard (isOffsetTime ((c :: after).takeWhile inScalar))
      some (.datetime, (c :: after).dropWhile inScalar)
    else some (← scalarValue? word, rest)
  | _ => some (← scalarValue? word, rest)

end ProjectFile.Toml
