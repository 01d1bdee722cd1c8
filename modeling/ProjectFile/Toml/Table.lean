import ProjectFile.Toml.Value

/-! # Tables of a settings file

Looking up a key, adding a key in its place among the others, and changing the table at the end of
a path of keys.  A path may go through tables that are not there yet, which makes them, but not
through every table that is there: `TableOf.admitsPath` says through which. -/

namespace ProjectFile.Toml

namespace TableOf

/-- What stands under a key. -/
def get? (t : TableOf α) (key : String) : Option (Spanned α) :=
  (t.entries.find? (·.1.value == key)).map Prod.snd

/-- The entries with what stands under a key replaced. -/
def replaceEntry (key : String) (value : Spanned α) :
    List (Spanned String × Spanned α) → List (Spanned String × Spanned α)
  | [] => []
  | e :: rest => if e.1.value = key then (e.1, value) :: rest else e :: replaceEntry key value rest

/-- Replaces what stands under a key. -/
def replace (t : TableOf α) (key : String) (value : Spanned α) : TableOf α :=
  { t with entries := replaceEntry key value t.entries }

/-- The entries with another one in its place among the keys. -/
def insertEntry (key : Spanned String) (value : Spanned α) :
    List (Spanned String × Spanned α) → List (Spanned String × Spanned α)
  | [] => [(key, value)]
  | e :: rest =>
    if key.value < e.1.value then (key, value) :: e :: rest else e :: insertEntry key value rest

/-- Adds a key that is not there yet. -/
def add (t : TableOf α) (key : Spanned String) (value : Spanned α) : TableOf α :=
  { t with entries := insertEntry key value t.entries }

/-- Takes a key away. -/
def remove (t : TableOf α) (key : String) : TableOf α :=
  { t with entries := t.entries.filter (·.1.value != key) }

/-! ## Changes along a path -/

/-- Whether a path goes on through a table.  None goes into a table between braces, and a dotted
    key goes through no table that has a header of its own. -/
def admitsPath (t : Table) (dotted : Bool) : Bool :=
  match t.origin with
  | .braces => false
  | .header => !dotted
  | .implied => true
  | .dotted => true

/-- Changes the table at the end of a path.  Tables that are not there yet are made; of an array
    of tables, the path goes through the last one.  `dotted` says that the path is that of a
    dotted key, not of a header. -/
def update (dotted : Bool) (f : Table → Option Table) :
    List Key → Table → Option Table
  | [], t => f t
  | key :: rest, t =>
    match t.get? key.value with
    | none => do
      let origin := if dotted then Origin.dotted else Origin.implied
      let child ← update dotted f rest { origin }
      some (t.add key ⟨key.span, .table child⟩)
    | some ⟨span, .table child⟩ => do
      guard (child.admitsPath dotted)
      let child ← update dotted f rest child
      some (t.replace key.value ⟨span, .table child⟩)
    -- The last table of the array is the one that is open.
    | some ⟨span, .tables items⟩ => do
      let last ← items.getLast?
      let child ← update dotted f rest last.value
      some (t.replace key.value ⟨span, .tables (items.dropLast ++ [⟨last.span, child⟩])⟩)
    | some _ => none

/-- Adds the value of a key that is not there yet. -/
def addNew (key : Key) (value : Spanned Value) (t : Table) : Option Table :=
  match t.get? key.value with
  | none => some (t.add key value)
  | some _ => none

/-- Adds the value of a key, which a path may lead to.  A dotted key adds only to tables that
    dotted keys made. -/
def assign (path : List Key) (key : Key) (value : Spanned Value) (t : Table) :
    Option Table :=
  if path.isEmpty then addNew key value t
  else update true (fun t => if t.origin = .dotted then addNew key value t else none) path t

/-- The table at the end of the path of a header; where nothing is yet, an empty one. -/
def at? : List Key → Table → Option Table
  | [], t => some t
  | key :: rest, t =>
    match t.get? key.value with
    | none => some { origin := .implied }
    | some ⟨_, .table child⟩ => if child.admitsPath false then at? rest child else none
    | some ⟨_, .tables items⟩ => items.getLast?.bind fun last => at? rest last.value
    | some _ => none

/-- The table that a header under a key starts from: a new one, or one that other headers
    imply. -/
def undefined? (key : Key) (t : Table) : Option Table :=
  match t.get? key.value with
  | none => some { origin := .header }
  | some ⟨_, .table child⟩ =>
    if child.origin = .implied then some { child with origin := .header } else none
  | some _ => none

/-- Defines the table under a key. -/
def define (key : Key) (child : Spanned Table) (t : Table) : Table :=
  (t.remove key.value).add key ⟨child.span, .table child.value⟩

/-- Adds a table to the array of tables under a key. -/
def pushTable (key : Key) (item : Spanned Table) (t : Table) : Option Table :=
  match t.get? key.value with
  | none => some (t.add key ⟨item.span, .tables [item]⟩)
  | some ⟨span, .tables items⟩ => some (t.replace key.value ⟨span, .tables (items ++ [item])⟩)
  | some _ => none

end TableOf

end ProjectFile.Toml
