import ProjectFile.Uri.Basic
import ProjectFile.Text.Number

/-! # Numeric addresses

A host may be an address of 32 bits, in one to four parts that may be decimal, octal or
hexadecimal, or one of 128 bits, in up to eight hexadecimal groups of which one run of zeros may
be left out. -/

namespace ProjectFile.Uri

open ProjectFile.Text

/-! ## Addresses of 32 bits -/

/-- The pieces of a text between the occurrences of a character. -/
def splitAt (sep : Char) : List Char → List (List Char)
  | [] => [[]]
  | c :: rest =>
    if c = sep then [] :: splitAt sep rest
    else
      match splitAt sep rest with
      | [] => [[c]]
      | piece :: pieces => (c :: piece) :: pieces

/-- The radix of a part of an address, and its digits: `0x` marks a hexadecimal part, and a
    leading zero an octal one. -/
def partDigits : List Char → Nat × List Char
  | '0' :: 'x' :: digits => (16, digits)
  | '0' :: 'X' :: digits => (16, digits)
  | '0' :: d :: digits => (8, d :: digits)
  | digits => (10, digits)

/-- The value of a part, which has no upper bound; a radix mark without digits is zero. -/
def partValue? (part : List Char) : Option Nat :=
  if part = [] then none
  else
    let (radix, digits) := partDigits part
    digits.foldlM (fun value c => (digitValue? radix c).map (value * radix + ·)) 0

/-- The parts of an address; a dot after the last part does not count. -/
def addressParts (s : List Char) : List (List Char) :=
  let parts := splitAt '.' s
  if parts.getLast? = some [] then parts.dropLast else parts

/-- Whether the last part of a host is a number, so that the host has to be an address. -/
def endsInNumber (s : List Char) : Bool :=
  match (addressParts s).getLast? with
  | none => false
  | some part => (!part.isEmpty && part.all Char.isDigit) || (partValue? part).isSome

/-- The address that one to four numbers give: each but the last is a byte, from the highest
    down, and the last fills the bytes that remain. -/
def ipv4OfParts? (numbers : List Nat) : Option Nat :=
  match numbers.reverse with
  | [] => none
  | last :: bytes =>
    let room := Nat.pow 256 (4 - bytes.length)
    if bytes.length < 4 ∧ bytes.all (· < 256) ∧ last < room then
      some (bytes.foldr (fun byte high => high * 256 + byte) 0 * room + last)
    else none

/-- The address of 32 bits that a text spells. -/
def ipv4? (s : List Char) : Option Nat := do
  ipv4OfParts? (← (addressParts s).mapM partValue?)

/-! ## Addresses of 128 bits -/

/-- The groups read so far, latest first, and after how many of them a run of zeros is left
    out. -/
structure Groups where
  values : List Nat := []
  gap : Option Nat := none

/-- The number of places taken, where the gap takes at least one. -/
def Groups.size (g : Groups) : Nat :=
  g.values.length + if g.gap.isSome then 1 else 0

/-- One more group. -/
def Groups.push (g : Groups) (value : Nat) : Groups :=
  { g with values := value :: g.values }

/-- The eight groups, with the zeros that were left out. -/
def Groups.complete? (g : Groups) : Option (List Nat) :=
  let values := g.values.reverse
  match g.gap with
  | none => if values.length = 8 then some values else none
  | some k => some (values.take k ++ List.replicate (8 - values.length) 0 ++ values.drop k)

/-- A decimal byte without leading zeros. -/
def decimalByte? (s : List Char) : Option Nat :=
  if s = [] ∨ (s.head? = some '0' ∧ s ≠ ['0']) then none
  else (readDigits 10 256 s).toOption

/-- The last two groups, written as an address of 32 bits in four decimal bytes. -/
def pushIpv4? (g : Groups) (s : List Char) : Option Groups := do
  guard (g.size ≤ 6)
  match ← (splitAt '.' s).mapM decimalByte? with
  | [a, b, c, d] => some ((g.push (a * 256 + b)).push (c * 256 + d))
  | _ => none

/-- The value of up to four hexadecimal digits. -/
def groupValue (digits : List Char) : Nat :=
  digits.foldl (fun value c => value * 16 + (digitValue? 16 c).getD 0) 0

/-- Whether a character is a hexadecimal digit. -/
def isHexDigit (c : Char) : Bool :=
  (digitValue? 16 c).isSome

/-- Reads on after the groups in `g`. -/
def readGroups (g : Groups) (s : List Char) : Option Groups :=
  match s with
  | [] => some g
  | c :: rest =>
    if g.size = 8 then none
    else if c = ':' then
      if g.gap.isSome then none else readGroups { g with gap := some g.values.length } rest
    else
      let digits := ((c :: rest).take 4).takeWhile isHexDigit
      match _h : (c :: rest).drop digits.length with
      | [] => some (g.push (groupValue digits))
      -- The digits belong to an address of 32 bits, which ends the whole one.
      | '.' :: _ => if digits = [] then none else pushIpv4? g (c :: rest)
      | ':' :: after => if after = [] then none else readGroups (g.push (groupValue digits)) after
      | _ => none
termination_by s.length
decreasing_by
  · simp
  · have := congrArg List.length _h
    simp only [List.length_drop, List.length_cons] at this ⊢
    omega

/-- The eight groups of the address of 128 bits that a text spells. -/
def ipv6? (s : List Char) : Option (List Nat) := do
  guard (2 ≤ s.length)
  let groups ← match s with
    | ':' :: ':' :: rest => readGroups { gap := some 0 } rest
    | ':' :: _ => none
    | s => readGroups {} s
  groups.complete?

end ProjectFile.Uri
