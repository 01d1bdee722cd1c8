import ProjectFile.Text.Bytes
import ProjectFile.Text.Number

/-! # References in markup text

A character that markup gives a meaning to is written as a reference: `&`, a name, and `;`.
`escape` writes the five predefined references, and `resolve` reads them back, together with
references to a character by its number. -/

namespace ProjectFile.Markup

open ProjectFile.Text

/-- The written form of one character: the five characters with a predefined name are written by
    that name. -/
def escapeChar (c : Char) : List Char :=
  if c = '<' then "&lt;".toList
  else if c = '>' then "&gt;".toList
  else if c = '&' then "&amp;".toList
  else if c = '\'' then "&apos;".toList
  else if c = '"' then "&quot;".toList
  else [c]

/-- A text with the five special characters written as references. -/
def escape (s : List Char) : List Char :=
  s.flatMap escapeChar

/-- No text is written as nothing. -/
@[simp] theorem escape_nil : escape [] = [] := rfl

/-- A text is written one character after the other. -/
@[simp] theorem escape_cons (c : Char) (s : List Char) :
    escape (c :: s) = escapeChar c ++ escape s := by
  simp [escape]

/-- Why a reference by number stands for no character. -/
inductive CharacterFault where
  | signed
  | number (fault : NumberFault)
  | zero
  | noScalar (code : Nat)
deriving DecidableEq, Repr

/-- The text of a fault. -/
def CharacterFault.message : CharacterFault → String
  | .signed => "unexpected number sign"
  | .number fault => fault.message
  | .zero => "0x0 character is not permitted in XML"
  | .noScalar code => s!"`{code}` is not a valid codepoint"

/-- Why a text with references cannot be resolved.  Offsets count bytes from its start. -/
inductive ReferenceFault where
  /-- The reference that starts at `start` has no `;` before the end at `stop`. -/
  | unterminated (start stop : Nat)
  /-- The name, from `start` to `stop`, is not one of the predefined ones. -/
  | unknownName (start stop : Nat) (name : String)
  | character (fault : CharacterFault)
deriving DecidableEq, Repr

/-- The text of a fault. -/
def ReferenceFault.message : ReferenceFault → String
  | .unterminated start stop =>
    s!"Error while escaping character at range {start}..{stop}: Cannot find ';' after '&'"
  | .unknownName start stop name => s!"at {start}..{stop}: unrecognized entity `{name}`"
  | .character fault => s!"invalid character reference: {fault.message}"

/-- The character of the predefined references. -/
def predefined? (name : List Char) : Option Char :=
  if name = "lt".toList then some '<'
  else if name = "gt".toList then some '>'
  else if name = "amp".toList then some '&'
  else if name = "apos".toList then some '\''
  else if name = "quot".toList then some '"'
  else none

/-- The character with a code, which has to be a Unicode scalar value other than zero. -/
def characterOfCode (code : Nat) : Except CharacterFault Char :=
  if code = 0 then .error .zero
  else if code.isValidChar then .ok (Char.ofNat code)
  else .error (.noScalar code)

/-- The character that a reference names by digits in the given radix.  A sign is refused. -/
def characterOfDigits (radix : Nat) (digits : List Char) : Except CharacterFault Char :=
  if digits.head? = some '+' ∨ digits.head? = some '-' then .error .signed
  else
    match readDigits radix wordBound digits with
    | .error fault => .error (.number fault)
    | .ok code => characterOfCode code

/-- The character of a reference by number, without its `#`: hexadecimal after `x`, else
    decimal. -/
def characterOfNumber : List Char → Except CharacterFault Char
  | 'x' :: digits => characterOfDigits 16 digits
  | digits => characterOfDigits 10 digits

/-- The character that the text between `&` and `;` stands for; the text starts at byte
    `start`. -/
def readReference (start : Nat) (body : List Char) : Except ReferenceFault Char :=
  match body with
  | '#' :: number => (characterOfNumber number).mapError .character
  | name =>
    match predefined? name with
    | some c => .ok c
    | none => .error (.unknownName start (start + byteLength name) (String.ofList name))

/-- Whether a character may stand between `&` and `;`. -/
def inReference (c : Char) : Bool :=
  c != '&' && c != ';'

/-- Resolves the references of the part of a text from byte `offset` on; the whole text has
    `size` bytes. -/
def resolveFrom (size offset : Nat) (s : List Char) : Except ReferenceFault (List Char) :=
  match s with
  | [] => .ok []
  | c :: rest =>
    if c = '&' then
      let body := rest.takeWhile inReference
      match _h : rest.dropWhile inReference with
      | ';' :: after =>
        match readReference (offset + 1) body with
        | .error fault => .error fault
        | .ok d => (resolveFrom size (offset + byteLength body + 2) after).map (d :: ·)
      -- The text ends, or a reference starts inside this one.
      | _ => .error (.unterminated offset size)
    else (resolveFrom size (offset + c.utf8Size) rest).map (c :: ·)
termination_by s.length
decreasing_by
  · have shorter := (List.dropWhile_sublist inReference (l := rest)).length_le
    rw [_h] at shorter
    simp at shorter ⊢
    omega
  · simp

/-- A text with its references replaced by the characters that they stand for. -/
def resolve (s : List Char) : Except ReferenceFault (List Char) :=
  resolveFrom (byteLength s) 0 s

end ProjectFile.Markup
