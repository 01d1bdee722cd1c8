import ProjectFile.Text.Number

/-! # Strings of a settings file

A string stands between double quotes, with escapes, or between single quotes, as it is.  Either
quote may be tripled, and then the string may span lines, whose breaks it keeps. -/

namespace ProjectFile.Toml

open ProjectFile.Text

/-- Whether a character may stand in a string or a comment: controls other than the tab may not. -/
def isPlain (c : Char) : Bool :=
  c == '\t' || (0x20 ≤ c.toNat && c.toNat != 0x7f)

/-- White space inside a line. -/
def isSpace (c : Char) : Bool :=
  c == ' ' || c == '\t'

/-- The text after a line break at its front. -/
def afterNewline? : List Char → Option (List Char)
  | '\n' :: rest => some rest
  | '\r' :: '\n' :: rest => some rest
  | _ => none

/-- The character whose code the first `n` characters spell in hexadecimal. -/
def codeEscape? (n : Nat) (s : List Char) : Option (Char × List Char) := do
  let digits := s.take n
  guard (digits.length = n)
  let code ← (readDigits 16 wordBound digits).toOption
  if code.isValidChar then some (Char.ofNat code, s.drop n) else none

/-- The character of the escape after a backslash. -/
def escape? : List Char → Option (Char × List Char)
  | 'b' :: rest => some ('\x08', rest)
  | 't' :: rest => some ('\t', rest)
  | 'n' :: rest => some ('\n', rest)
  | 'f' :: rest => some ('\x0c', rest)
  | 'r' :: rest => some ('\r', rest)
  | 'e' :: rest => some ('\x1b', rest)
  | '"' :: rest => some ('"', rest)
  | '\\' :: rest => some ('\\', rest)
  | 'x' :: rest => codeEscape? 2 rest
  | 'u' :: rest => codeEscape? 4 rest
  | 'U' :: rest => codeEscape? 8 rest
  | _ => none

/-- The text without the white space and line breaks at its front. -/
def skipLines : List Char → List Char
  | '\n' :: rest => skipLines rest
  | '\r' :: '\n' :: rest => skipLines rest
  | c :: rest => if isSpace c then skipLines rest else c :: rest
  | [] => []

/-- What follows a backslash at the end of a line, and the white space after it. -/
def lineJoin? (s : List Char) : Option (List Char) :=
  let rest := s.dropWhile isSpace
  (afterNewline? rest).map fun after => skipLines after

/-- Goes on reading a string on one line; `acc` is what it holds so far, latest first.  `fuel`
    bounds the number of characters. -/
def basicString (fuel : Nat) (acc : List Char) (s : List Char) : Option (String × List Char) :=
  match fuel with
  | 0 => none
  | fuel + 1 =>
    match s with
    | [] => none
    | '"' :: rest => some (String.ofList acc.reverse, rest)
    | '\\' :: rest => do
      let (c, rest) ← escape? rest
      basicString fuel (c :: acc) rest
    | c :: rest => if isPlain c then basicString fuel (c :: acc) rest else none

/-- Goes on reading a string between single quotes on one line. -/
def literalString (acc : List Char) : List Char → Option (String × List Char)
  | [] => none
  | '\'' :: rest => some (String.ofList acc.reverse, rest)
  | c :: rest => if isPlain c then literalString (c :: acc) rest else none

/-- The end of a string between tripled quotes, after the three of them: up to two more quotes
    belong to the string. -/
def closeTripled (quote : Char) (acc : List Char) (s : List Char) : String × List Char :=
  match s with
  | a :: b :: rest =>
    if a = quote then
      if b = quote then (String.ofList (quote :: quote :: acc).reverse, rest)
      else (String.ofList (quote :: acc).reverse, b :: rest)
    else (String.ofList acc.reverse, a :: b :: rest)
  | [a] =>
    if a = quote then (String.ofList (quote :: acc).reverse, [])
    else (String.ofList acc.reverse, [a])
  | [] => (String.ofList acc.reverse, [])

/-- Goes on reading a string between tripled quotes, which may hold line breaks; `escapes` says
    whether a backslash has a meaning. -/
def tripledString (quote : Char) (escapes : Bool) (fuel : Nat) (acc : List Char)
    (s : List Char) : Option (String × List Char) :=
  match fuel with
  | 0 => none
  | fuel + 1 =>
    match s with
    | [] => none
    | c :: rest =>
      -- An escaped quote goes with its backslash, so three quotes here close the string.
      if c = quote && rest.head? == some quote && (rest.drop 1).head? == some quote then
        some (closeTripled quote acc (rest.drop 2))
      else if c = '\\' && escapes then
        match lineJoin? rest with
        | some after => tripledString quote escapes fuel acc after
        | none => do
          let (d, after) ← escape? rest
          tripledString quote escapes fuel (d :: acc) after
      else
        -- A carriage return is no plain character, but belongs to the line break that it starts.
        if isPlain c || (afterNewline? (c :: rest)).isSome then
          tripledString quote escapes fuel (c :: acc) rest
        else none

/-- The content of a string between tripled quotes starts after a line break, if it starts with
    one. -/
def dropFirstNewline (s : List Char) : List Char :=
  (afterNewline? s).getD s

/-- A string on one line, as keys may have it. -/
def lineString? : List Char → Option (String × List Char)
  | '"' :: rest => basicString (rest.length + 1) [] rest
  | '\'' :: rest => literalString [] rest
  | _ => none

/-- A string at the front of a text. -/
def string? (s : List Char) : Option (String × List Char) :=
  match s with
  | '"' :: '"' :: '"' :: rest =>
    tripledString '"' true (rest.length + 1) [] (dropFirstNewline rest)
  | '\'' :: '\'' :: '\'' :: rest =>
    tripledString '\'' false (rest.length + 1) [] (dropFirstNewline rest)
  | s => lineString? s

end ProjectFile.Toml
