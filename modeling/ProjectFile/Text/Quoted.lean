import ProjectFile.Text.Printable

/-! # Quoted texts

The form in which messages show a text: between double quotes, with the quote, the backslash and
the characters without a visible form escaped.  `quote` writes it. -/

namespace ProjectFile.Text

/-- The digits of a number in lower case hexadecimal, without leading zeros. -/
def hexDigits (n : Nat) : List Char :=
  Nat.toDigits 16 n

/-- One character of a quoted text.  An apostrophe needs no escape between double quotes. -/
def quoteChar (c : Char) : List Char :=
  if c = '"' then ['\\', '"']
  else if c = '\\' then ['\\', '\\']
  else if c = '\n' then ['\\', 'n']
  else if c = '\r' then ['\\', 'r']
  else if c = '\t' then ['\\', 't']
  else if c.toNat = 0 then ['\\', '0']
  else if c.toNat < 0x7f && 0x20 ≤ c.toNat then [c]
  else if isUnprintable c || isCombining c then ['\\', 'u', '\x7b'] ++ hexDigits c.toNat ++ ['\x7d']
  else [c]

/-- The quoted form of a list of characters. -/
def quoteChars (s : List Char) : List Char :=
  '"' :: s.flatMap quoteChar ++ ['"']

/-- The quoted form of a string. -/
def quote (s : String) : String :=
  String.ofList (quoteChars s.toList)

end ProjectFile.Text
