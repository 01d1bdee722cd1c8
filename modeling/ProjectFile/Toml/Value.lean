import ProjectFile.Decimal.Binary64

/-! # Values of a settings file

A settings file holds a table of values.  Every value and every key remembers where it stands in
the file, so that a message can point at it.  The entries of a table are in the order of their
keys.

A number is kept as it was written, whatever its size; `Value.overflow?` says whether it is out of
the range that numbers may have. -/

namespace ProjectFile.Toml

/-- A place in a text, by the number of characters that are left at its start and at its end. -/
structure Span where
  left : Nat
  leftAfter : Nat
deriving DecidableEq, Repr

/-- Something that stands at a place. -/
structure Spanned (α : Type) where
  span : Span
  value : α
deriving Repr

/-- A floating point number as it was written. -/
inductive FloatText where
  | finite (d : Decimal)
  | infinite (negative : Bool)
  | nan
deriving DecidableEq, Repr

/-- How a table came to be, which decides what may be added to it. -/
inductive Origin where
  /-- It has a header of its own, or is the table of the whole file. -/
  | header
  /-- It is part of the header of another table. -/
  | implied
  /-- It is part of a dotted key. -/
  | dotted
  /-- It is written between braces. -/
  | braces
deriving DecidableEq, Repr

/-- A table with values of some type, in the order of their keys. -/
structure TableOf (α : Type) where
  origin : Origin
  entries : List (Spanned String × Spanned α) := []

/-- A value. -/
inductive Value where
  | string (s : String)
  | integer (n : Int)
  | float (x : FloatText)
  | boolean (b : Bool)
  | datetime
  | array (items : List (Spanned Value))
  /-- An array of the tables that headers in double brackets give. -/
  | tables (items : List (Spanned (TableOf Value)))
  | table (t : TableOf Value)

/-- A table of values. -/
abbrev Table := TableOf Value

/-- A key at its place. -/
abbrev Key := Spanned String

/-- The name of the type of a value. -/
def Value.typeName : Value → String
  | .string _ => "string"
  | .integer _ => "integer"
  | .float _ => "float"
  | .boolean _ => "boolean"
  | .datetime => "datetime"
  | .array _ => "array"
  | .tables _ => "array"
  | .table _ => "table"

/-! ## The values without parts -/

mutual

/-- The values without parts that a value is made of, at their places and in their order. -/
def Value.leaves (span : Span) : Value → List (Spanned Value)
  | .array items => leavesOfItems items
  | .tables items => leavesOfTables items
  | .table t => leavesOfTable t
  | .string s => [⟨span, .string s⟩]
  | .integer n => [⟨span, .integer n⟩]
  | .float x => [⟨span, .float x⟩]
  | .boolean b => [⟨span, .boolean b⟩]
  | .datetime => [⟨span, .datetime⟩]

/-- The values without parts in the items of an array. -/
def leavesOfItems : List (Spanned Value) → List (Spanned Value)
  | [] => []
  | v :: rest => v.value.leaves v.span ++ leavesOfItems rest

/-- The values without parts in an array of tables. -/
def leavesOfTables : List (Spanned (TableOf Value)) → List (Spanned Value)
  | [] => []
  | t :: rest => leavesOfTable t.value ++ leavesOfTables rest

/-- The values without parts in a table. -/
def leavesOfTable : TableOf Value → List (Spanned Value)
  | ⟨_, entries⟩ => leavesOfEntries entries

/-- The values without parts in the entries of a table. -/
def leavesOfEntries : List (Spanned String × Spanned Value) → List (Spanned Value)
  | [] => []
  | (_, v) :: rest => v.value.leaves v.span ++ leavesOfEntries rest

end

/-! ## The range of numbers -/

/-- Why a number is out of range. -/
inductive Overflow where
  | integer
  | float
deriving DecidableEq, Repr

/-- Whether an integer fits in a sign and as many bits. -/
def fitsSigned (bits : Nat) (n : Int) : Bool :=
  let power : Int := Nat.pow 2 bits
  n < power && -power ≤ n

/-- Whether an integer is not negative and fits in as many bits. -/
def fitsUnsigned (bits : Nat) (n : Int) : Bool :=
  let power : Int := Nat.pow 2 bits
  n < power && 0 ≤ n

/-- Whether a number is out of range: an integer of more than 128 bits, or a floating point number
    that is as good as infinite. -/
def Value.overflow? : Value → Option Overflow
  | .integer n => if fitsSigned 127 n || fitsUnsigned 128 n then none else some .integer
  | .float (.finite d) => if d.toBinary64 = .infinite then some .float else none
  | _ => none

/-- Whether a value is one that every reader of such files takes: its integers have a sign and 63
    bits, and its floating point numbers are in range. -/
def Value.isPortable (v : Value) : Bool :=
  match v with
  | .integer n => fitsSigned 63 n
  | v => v.overflow?.isNone

end ProjectFile.Toml
