import ProjectFile.Toml.Quoted
import ProjectFile.Toml.Scalar
import ProjectFile.Toml.Table

/-! # Reading settings files

`parse` gives the table that a text describes: key and value pairs, one on a line, under headers
that say which table they belong to.  It gives nothing if the text breaks a rule, be it one of
spelling or the one that nothing is defined twice. -/

namespace ProjectFile.Toml

/-! ## Between the values -/

/-- The text without the spaces and tabs at its front. -/
def skipSpace (s : List Char) : List Char :=
  s.dropWhile isSpace

/-- Whether a character belongs to the line that it stands on. -/
def inLine (c : Char) : Bool :=
  c != '\n'

/-- What follows a comment at the front of a text, which goes on to the end of the line. -/
def skipComment? (s : List Char) : Option (List Char) :=
  match s with
  | '#' :: _ =>
    let line := s.takeWhile inLine
    -- A carriage return before the line feed belongs to the line break.
    let endsInReturn := s.dropWhile inLine ≠ [] ∧ line.getLast? = some '\r'
    let comment := if endsInReturn then line.dropLast else line
    if comment.all isPlain then some (s.drop comment.length) else none
  | s => some s

/-- What follows white space, line breaks and comments at the front of a text. -/
def skipGap? : Nat → List Char → Option (List Char)
  | 0, s => some s
  | fuel + 1, s =>
    match skipSpace s with
    | '#' :: rest => do skipGap? fuel (← skipComment? ('#' :: rest))
    | s =>
      match afterNewline? s with
      | some rest => skipGap? fuel rest
      | none => some s

/-- What follows white space, line breaks and comments. -/
def gap? (s : List Char) : Option (List Char) :=
  skipGap? (s.length + 1) s

/-- What follows the end of a line, which may hold white space and a comment. -/
def endLine? (s : List Char) : Option (List Char) := do
  let s ← skipComment? (skipSpace s)
  if s = [] then some [] else afterNewline? s

/-! ## Keys -/

/-- Whether a character may stand in a key without quotes. -/
def inBareKey (c : Char) : Bool :=
  c.isAlphanum || c == '_' || c == '-'

/-- One key, at its place. -/
def simpleKey? (s : List Char) : Option (Key × List Char) := do
  let bare := s.takeWhile inBareKey
  let (name, rest) ←
    if bare ≠ [] then some (String.ofList bare, s.dropWhile inBareKey) else lineString? s
  some (⟨⟨s.length, rest.length⟩, name⟩, rest)

/-- The keys between dots at the front of a text, at most as many as `limit`: those before the
    last, and the last. -/
def keyPath? : (limit : Nat) → List Char → Option (List Key × Key × List Char)
  | 0, _ => none
  | limit + 1, s => do
    let (key, rest) ← simpleKey? (skipSpace s)
    match skipSpace rest with
    | '.' :: after => do
      let (path, last, rest) ← keyPath? limit after
      some (key :: path, last, rest)
    | rest => some ([], key, rest)

/-- How many arrays and tables may be open at once, and how many parts a dotted key may have. -/
def depthLimit : Nat := 80

/-- A key, which may be dotted. -/
def key? (s : List Char) : Option (List Key × Key × List Char) :=
  keyPath? depthLimit s

/-! ## Values -/

/-- Reads the items before a closing character, which commas part; `item?` reads one of them
    into what is read so far. -/
def items? (close : Char) (item? : α → List Char → Option (α × List Char)) :
    Nat → α → List Char → Option (α × List Char)
  | 0, _, _ => none
  | fuel + 1, acc, s => do
    match ← gap? s with
    | [] => none
    | c :: rest =>
      if c = close then some (acc, rest)
      else
        let (acc, s) ← item? acc (c :: rest)
        -- A comma may come before the closing character.
        match ← gap? s with
        | ',' :: rest => items? close item? fuel acc rest
        | d :: rest => if d = close then some (acc, rest) else none
        | [] => none

/-- A key, an equals sign and a value, added to a table.  `pad?` skips what may stand on either side
    of the sign. -/
def pair? (pad? : List Char → Option (List Char))
    (value? : List Char → Option (Spanned Value × List Char)) (t : Table) (s : List Char) :
    Option (Table × List Char) := do
  let (path, key, s) ← key? s
  match ← pad? s with
  | '=' :: s =>
    let (value, s) ← value? (← pad? s)
    let t ← TableOf.assign path key value t
    some (t, s)
  | _ => none

/-- A value that holds no others, at the front of a text. -/
def leaf? (s : List Char) : Option (Spanned Value × List Char) := do
  let (value, rest) ← match string? s with
    | some (text, rest) => some (.string text, rest)
    | none => scalar? s
  some (⟨⟨s.length, rest.length⟩, value⟩, rest)

/-- A value at the front of a text.  At most `depth` arrays and tables may be open in it. -/
def valueWithin? : (depth : Nat) → List Char → Option (Spanned Value × List Char)
  | 0, s => leaf? s
  | depth + 1, s =>
    match s with
    | '[' :: inside => do
      let push (acc : List (Spanned Value)) (s : List Char) := do
        let (value, rest) ← valueWithin? depth s
        some (acc ++ [value], rest)
      let (items, rest) ← items? ']' push (inside.length + 1) [] inside
      some (⟨⟨s.length, rest.length⟩, .array items⟩, rest)
    | '\x7b' :: inside => do
      -- Between braces, a pair may go on over lines.
      let (t, rest) ←
        items? '\x7d' (pair? gap? (valueWithin? depth)) (inside.length + 1) { origin := .braces }
          inside
      some (⟨⟨s.length, rest.length⟩, .table t⟩, rest)
    | s => leaf? s

/-- A value at the front of a text. -/
def value? (s : List Char) : Option (Spanned Value × List Char) :=
  valueWithin? depthLimit s

/-! ## Headers -/

/-- A header: the table, or the array of tables, that the pairs after it belong to. -/
structure Header where
  path : List Key
  key : Key
  ofArray : Bool
  span : Span

/-- A header at the front of a text. -/
def header? (s : List Char) : Option (Header × List Char) :=
  match s with
  | '[' :: '[' :: inside => do
    let (path, key, rest) ← key? inside
    match rest with
    | ']' :: ']' :: rest => some (⟨path, key, true, ⟨s.length, rest.length⟩⟩, rest)
    | _ => none
  -- No blank may stand between the brackets of an array of tables, so this is a table.
  | '[' :: inside => do
    let (path, key, rest) ← key? inside
    match rest with
    | ']' :: rest => some (⟨path, key, false, ⟨s.length, rest.length⟩⟩, rest)
    | _ => none
  | _ => none

/-! ## Files -/

/-- A file while it is read: the table of the whole file as it was at the last header, and the
    table that this header is about. -/
structure Draft where
  whole : Table := { origin := .header }
  part : Table := { origin := .header }
  header? : Option Header := none

/-- Puts the table that the last header is about into its place. -/
def Draft.close? (d : Draft) : Option Table :=
  match d.header? with
  | none => some d.part
  | some h =>
    let place (t : Table) : Option Table :=
      if h.ofArray then TableOf.pushTable h.key ⟨h.span, d.part⟩ t
      else some (TableOf.define h.key ⟨h.span, d.part⟩ t)
    TableOf.update false place h.path d.whole

/-- Starts the table that a header is about. -/
def Draft.start? (d : Draft) (h : Header) : Option Draft := do
  let whole ← d.close?
  let part ←
    if h.ofArray then some { origin := .header }
    else (TableOf.at? h.path whole).bind (TableOf.undefined? h.key)
  some { whole, part, header? := some h }

/-- Reads the lines of a file. -/
def lines? : Nat → Draft → List Char → Option Table
  | 0, _, _ => none
  | fuel + 1, d, s =>
    match skipSpace s with
    | [] => d.close?
    | c :: rest =>
      if c = '[' then do
        -- A header ends the part before it.
        let (h, rest) ← header? (c :: rest)
        lines? fuel (← d.start? h) (← endLine? rest)
      else if c = '#' ∨ c = '\n' ∨ c = '\r' then do
        lines? fuel d (← endLine? (c :: rest))
      else do
        let (part, rest) ← pair? (some ∘ skipSpace) value? d.part (c :: rest)
        lines? fuel { d with part } (← endLine? rest)

/-- A byte order mark at the start is not part of the file. -/
def dropMark : List Char → List Char
  | '\ufeff' :: s => s
  | s => s

/-- The table that a text describes. -/
def parse (text : String) : Option Table :=
  let s := dropMark text.toList
  lines? (s.length + 1) {} s

end ProjectFile.Toml
