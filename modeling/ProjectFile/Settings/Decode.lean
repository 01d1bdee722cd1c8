import ProjectFile.Decimal.Shortest
import ProjectFile.Settings.Basic
import ProjectFile.Text.Bytes
import ProjectFile.Toml.Parse

/-! # Settings from a settings file

A settings file has a table for the writer and one for the reader.  Keys that are no settings are
ignored, but for the range of the numbers under them.  A table may also be given by the list of its
values, and the name of a separator as the key of an empty table.

The first fault decides: the values of a table are looked at in the order of their keys. -/

namespace ProjectFile

open ProjectFile.Text ProjectFile.Toml

/-- What a value should have been. -/
inductive Expected where
  | boolean
  | writerSettings
  | readerSettings
deriving DecidableEq, Repr

/-- The text for what a value should have been. -/
def Expected.text : Expected → String
  | .boolean => "a boolean"
  | .writerSettings => "struct WriterSettings"
  | .readerSettings => "struct ReaderSettings"

/-- Why a value does not give a setting. -/
inductive ShapeFault where
  | unknownName (name : String)
  | noName
  | nameMissing
  | manyNames
  | tableNotEmpty
  | arrayNotEmpty
  | notATable (found : String)
  | wrongType (found : String) (expected : Expected)
  | outOfRange (overflow : Overflow)
deriving DecidableEq, Repr

/-- The text of a fault. -/
def ShapeFault.message : ShapeFault → String
  | .unknownName name => s!"unknown variant `{name}`, expected one of `lf`, `crlf`, `native`"
  | .noName => "wanted string or table"
  | .nameMissing => "wanted exactly 1 element, found 0 elements"
  | .manyNames => "wanted exactly 1 element, more than 1 element"
  | .tableNotEmpty => "expected empty table"
  | .arrayNotEmpty => "expected empty array"
  | .notATable found => s!"expected table, found {found}"
  | .wrongType found expected => s!"invalid type: {found}, expected {expected.text}"
  | .outOfRange .integer => "integer number overflowed"
  | .outOfRange .float => "floating-point number overflowed"

/-- A fault at the place of the value that has it. -/
abbrev Decoded (α : Type) := Except (Spanned ShapeFault) α

/-- The text of a floating point number. -/
def renderFloat : FloatText → String
  | .finite d => d.render
  | .infinite negative => if negative then "-inf" else "inf"
  | .nan => "NaN"

/-- How a message names an integer: one of more than 64 bits with its width. -/
def describeInteger (n : Int) : String :=
  if fitsSigned 63 n || fitsUnsigned 64 n then s!"integer `{n}`"
  else if fitsSigned 127 n then s!"integer `{n}` as i128"
  else s!"integer `{n}` as u128"

/-- How a message names a value. -/
def describe : Value → String
  | .string s => s!"string {quote s}"
  | .integer n => describeInteger n
  | .float x => s!"floating point `{renderFloat x}`"
  | .boolean b => s!"boolean `{b}`"
  | .datetime => "map"
  | .array _ => "sequence"
  | .tables _ => "sequence"
  | .table _ => "map"

/-- The fault of a number that is out of range. -/
def rangeFault? (v : Spanned Value) : Option (Spanned ShapeFault) :=
  v.value.overflow?.map fun overflow => ⟨v.span, .outOfRange overflow⟩

/-- The fault of a value that should have been something else.  It is looked at first, so its range
    comes before its type. -/
def wrongType (expected : Expected) (v : Spanned Value) : Spanned ShapeFault :=
  (rangeFault? v).getD ⟨v.span, .wrongType (describe v.value) expected⟩

/-- What is no setting may be any value whose numbers are in range. -/
def decodeIgnored (v : Spanned Value) : Decoded Unit :=
  match (v.value.leaves v.span).findSome? rangeFault? with
  | some fault => .error fault
  | none => .ok ()

/-- A truth value. -/
def decodeBoolean (v : Spanned Value) : Decoded Bool :=
  match v.value with
  | .boolean b => .ok b
  | _ => .error (wrongType .boolean v)

/-- The separator with a name that stands at a place. -/
def decodeName (key : Spanned String) : Decoded LineSeparator :=
  match LineSeparator.ofName? key.value with
  | some l => .ok l
  | none => .error ⟨key.span, .unknownName key.value⟩

/-- What stands under the name of a separator has to be empty. -/
def decodeNothing (v : Spanned Value) : Decoded Unit :=
  match v.value with
  | .array [] => .ok ()
  | .array _ => .error ⟨v.span, .arrayNotEmpty⟩
  | .tables _ => .error ⟨v.span, .arrayNotEmpty⟩
  | .table t => if t.entries.isEmpty then .ok () else .error ⟨v.span, .tableNotEmpty⟩
  | other => .error ⟨v.span, .notATable other.typeName⟩

/-- A line separator. -/
def decodeSeparator (v : Spanned Value) : Decoded LineSeparator :=
  match v.value with
  | .string s => decodeName ⟨v.span, s⟩
  | .table t =>
    match t.entries with
    | [] => .error ⟨v.span, .nameMissing⟩
    | [(key, value)] => do
      let l ← decodeName key
      decodeNothing value
      pure l
    | _ => .error ⟨v.span, .manyNames⟩
  | _ => .error ⟨v.span, .noName⟩

/-- What stands under one key of a table, or a default.  What stands under other keys is no
    setting. -/
def decodeEntry (key : String) (default : α) (decode : Spanned Value → Decoded α) (t : Table) :
    Decoded α :=
  t.entries.foldlM
    (fun found (k, v) => if k.value = key then decode v else (decodeIgnored v).map fun () => found)
    default

/-- The one setting of a table, under its key or as the first value of a list, or its default. -/
def decodeField (key : String) (expected : Expected) (default : α)
    (decode : Spanned Value → Decoded α) (v : Spanned Value) : Decoded α :=
  let orDefault (field? : Option (Spanned Value)) : Decoded α :=
    match field? with
    | some field => decode field
    | none => .ok default
  match v.value with
  | .table t => decodeEntry key default decode t
  -- A list gives the fields in their order, and there is only one.
  | .array items => orDefault items.head?
  | .tables items => orDefault (items.head?.map fun t => ⟨t.span, .table t.value⟩)
  | .datetime => .ok default
  | _ => .error (wrongType expected v)

/-- The settings with what one entry of a file says. -/
def Settings.withEntry (s : Settings) (key : Key) (v : Spanned Value) : Decoded Settings :=
  if key.value = "reader" then do
    let strict ← decodeField "strict" .readerSettings s.strict decodeBoolean v
    pure { s with strict }
  else if key.value = "writer" then do
    let lineSeparator ←
      decodeField "line_separator" .writerSettings s.lineSeparator decodeSeparator v
    pure { s with lineSeparator }
  else do
    decodeIgnored v
    pure s

/-- The settings that the table of a file gives. -/
def Settings.ofTable (file : Table) : Decoded Settings :=
  file.entries.foldlM (fun s (key, v) => s.withEntry key v) {}

/-- Why a text gives no settings. -/
inductive SettingsFault where
  /-- It is no settings file. -/
  | unreadable
  /-- A value of the text, which describes a table, has the wrong shape. -/
  | shape (text : String) (file : Table) (fault : Spanned ShapeFault)

/-- The settings that a text gives. -/
def Settings.ofText (text : String) : Except SettingsFault Settings :=
  match Toml.parse text with
  | none => .error .unreadable
  | some file => (Settings.ofTable file).mapError (.shape text file)

/-! ## Messages -/

/-- A place in a text, as a message shows it: the line, its number and the column, both from
    one, and the number of marks below it. -/
structure Excerpt where
  line : List Char
  number : Nat
  column : Nat
  marks : Nat
deriving DecidableEq, Repr

/-- The place of a span.  The marks are as many as the span has bytes, but do not go beyond the
    bytes of the line. -/
def Excerpt.ofSpan (text : List Char) (s : Span) : Excerpt :=
  let start := text.length - s.left
  let before := text.take start
  -- The line of the place: what is before it on that line, and the rest.
  let column := (before.reverse.takeWhile (· != '\n')).length
  let line := (text.drop (start - column)).takeWhile (· != '\n')
  let width := byteLength ((text.drop start).take (s.left - s.leftAfter))
  { line
    number := before.count '\n' + 1
    column := column + 1
    marks := max 1 (min width (byteLength line - column)) }

/-- The lines that show a place and say what is wrong there. -/
def Excerpt.render (e : Excerpt) (message : String) : String :=
  let line := String.ofList e.line
  let gutter := String.ofList (List.replicate ((toString e.number).length + 1) ' ')
  let indent := String.ofList (List.replicate e.column ' ')
  let marks := String.ofList (List.replicate e.marks '^')
  s!"TOML parse error at line {e.number}, column {e.column}\n{gutter}|\n" ++
    s!"{e.number} | {line}\n{gutter}|{indent}{marks}\n{message}\n"

/-- What is wrong with a value, without its place.  Nothing is said about a file that not every
    reader of such files takes. -/
def SettingsFault.brief? : SettingsFault → Option String
  | .unreadable => none
  | .shape _ file fault =>
    if (leavesOfTable file).all fun v => v.value.isPortable then some fault.value.message else none

/-- The whole text of a fault. -/
def SettingsFault.report : SettingsFault → String
  | .unreadable => "TOML parse error"
  | .shape text _ fault => (Excerpt.ofSpan text.toList fault.span).render fault.value.message

end ProjectFile
