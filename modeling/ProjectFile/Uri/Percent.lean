import ProjectFile.Text.Bytes
import ProjectFile.Text.Number

/-! # Percent-encoding

A character that a part of a URI cannot hold is written as the bytes of its UTF-8 form, each as
`%` and two hexadecimal digits.  Every part has its own set of ASCII characters that are encoded;
characters beyond ASCII always are. -/

namespace ProjectFile.Uri

open ProjectFile.Text

/-- A set of ASCII characters that a part of a URI encodes. -/
abbrev EncodeSet := Char → Bool

/-- The control characters. -/
def isControl (c : Char) : Bool :=
  c.toNat < 0x20 || c.toNat == 0x7f

/-- The set of fragments. -/
def fragmentSet (c : Char) : Bool :=
  isControl c || " \"<>\x60".toList.contains c

/-- The set of queries. -/
def querySet (c : Char) : Bool :=
  isControl c || " \"#<>".toList.contains c

/-- The set of queries of the special schemes. -/
def specialQuerySet (c : Char) : Bool :=
  querySet c || c == '\''

/-- The set of path segments. -/
def pathSet (c : Char) : Bool :=
  fragmentSet c || "#?\x7b\x7d".toList.contains c

/-- The set of user names and passwords. -/
def userSet (c : Char) : Bool :=
  pathSet c || "/:;=@[\\]^|".toList.contains c

/-- The upper case hexadecimal digit of a number below sixteen. -/
def upperHexDigit (n : Nat) : Char :=
  (Nat.digitChar n).toUpper

/-- The encoded form of a byte. -/
def encodeByte (b : UInt8) : List Char :=
  ['%', upperHexDigit (b.toNat / 16), upperHexDigit (b.toNat % 16)]

/-- The form of a character in a part of a URI. -/
def encodeChar (set : EncodeSet) (c : Char) : List Char :=
  if c.toNat < 0x80 && !set c then [c] else (String.utf8EncodeChar c).flatMap encodeByte

/-- A text with the characters of a set, and those beyond ASCII, encoded. -/
def encode (set : EncodeSet) (s : List Char) : List Char :=
  s.flatMap (encodeChar set)

/-- The bytes of a text in which `%` and two hexadecimal digits stand for a byte.  A `%` without
    them stands for itself. -/
def decodeBytes (s : List Char) : List UInt8 :=
  match s with
  | [] => []
  | '%' :: high :: low :: rest =>
    match digitValue? 16 high, digitValue? 16 low with
    | some h, some l => UInt8.ofNat (h * 16 + l) :: decodeBytes rest
    -- Only the percent sign is taken off, so the next two characters are looked at again.
    | _, _ => String.utf8EncodeChar '%' ++ decodeBytes (high :: low :: rest)
  | c :: rest => String.utf8EncodeChar c ++ decodeBytes rest
termination_by s.length

/-- The text that a percent-encoded text stands for, if its bytes are the UTF-8 form of one. -/
def decode? (s : List Char) : Option String :=
  ofBytes? (decodeBytes s)

end ProjectFile.Uri
