import Mathlib.Data.List.Sort
import ProjectFile.Proofs.Toml.WellFormed

/-!
# What a settings file says, however it says it

The datum of a value is what is left of it without the places of its parts and without their
spelling: a number is its value, not its digits, and a table is a table, whether headers, dotted
keys or braces make it.  Nor does the order of the keys count: well-formed tables have the same data
if and only if they have the same datum under each key.

## Key results

- `TableOf.lookup_dataOfTable`: what the data of a table say about a key
- `TableOf.WellFormed.dataOfTable_eq_iff`: tables with the same data have the same datum under each
  key
-/

namespace ProjectFile.Toml

/-- A value without places and spelling. -/
inductive Datum where
  | string (s : String)
  | integer (n : Int)
  /-- A sign and a size, or none for what is not a number. -/
  | float (number? : Option (Bool × Binary64))
  | boolean (b : Bool)
  | datetime
  | array (items : List Datum)
  /-- A table, with its keys in order. -/
  | table (entries : List (String × Datum))

/-- Whether a datum is a table or an array without parts. -/
def Datum.isEmpty : Datum → Bool
  | .array [] => true
  | .table [] => true
  | _ => false

instance (d? : Option Datum) (b : Bool) : Decidable (d? = some (.boolean b)) :=
  match d? with
  | some (.boolean c) => decidable_of_iff (c = b) (by simp)
  | none => isFalse (by simp)
  | some (.string _) => isFalse (by simp)
  | some (.integer _) => isFalse (by simp)
  | some (.float _) => isFalse (by simp)
  | some .datetime => isFalse (by simp)
  | some (.array _) => isFalse (by simp)
  | some (.table _) => isFalse (by simp)

/-- The sign and the size of a floating point number. -/
def FloatText.number? : FloatText → Option (Bool × Binary64)
  | .finite d => some (d.negative, d.toBinary64)
  | .infinite negative => some (negative, .infinite)
  | .nan => none

mutual

/-- What a value is, without places and spelling. -/
def Value.datum : Value → Datum
  | .string s => .string s
  | .integer n => .integer n
  | .float x => .float x.number?
  | .boolean b => .boolean b
  | .datetime => .datetime
  | .array items => .array (dataOfItems items)
  | .tables items => .array (dataOfTables items)
  | .table t => .table (dataOfTable t)

/-- The data of the items of an array. -/
def dataOfItems : List (Spanned Value) → List Datum
  | [] => []
  | v :: rest => v.value.datum :: dataOfItems rest

/-- The data of an array of tables. -/
def dataOfTables : List (Spanned (TableOf Value)) → List Datum
  | [] => []
  | t :: rest => .table (dataOfTable t.value) :: dataOfTables rest

/-- The keys of a table, each with its datum. -/
def dataOfTable : TableOf Value → List (String × Datum)
  | ⟨_, entries⟩ => dataOfEntries entries

/-- The keys of entries, each with its datum. -/
def dataOfEntries : List (Spanned String × Spanned Value) → List (String × Datum)
  | [] => []
  | (k, v) :: rest => (k.value, v.value.datum) :: dataOfEntries rest

end

/-- The data of entries are made entry by entry. -/
private theorem dataOfEntries_eq_map (entries : List (Spanned String × Spanned Value)) :
    dataOfEntries entries = entries.map fun e => (e.1.value, e.2.value.datum) := by
  induction entries with
  | nil => rw [dataOfEntries, List.map_nil]
  | cons e rest ih => rw [dataOfEntries, ih, List.map_cons]

/-! ## Tables with the same data -/

/-- In a list with ascending keys, what is found under a key is all that stands there. -/
private theorem lookup_eq_some_iff_mem {entries : List (String × α)}
    (ascend : entries.Pairwise (·.1 < ·.1)) {key : String} {a : α} :
    entries.lookup key = some a ↔ (key, a) ∈ entries := by
  induction entries with
  | nil => simp
  | cons e rest ih =>
    obtain ⟨first, b⟩ := e
    have ⟨above, ascend'⟩ := List.pairwise_cons.mp ascend
    rw [List.lookup_cons, List.mem_cons, Prod.mk.injEq]
    by_cases here : key = first
    · -- The keys behind the first one are higher, so it is found nowhere else.
      have gone : (key, a) ∉ rest := fun there => (here ▸ above _ there).ne rfl
      simp [here, eq_comm, here ▸ gone]
    · rw [beq_false_of_ne here, ih ascend']
      simp [here]

namespace TableOf

/-- The data of a table say under each key what stands there. -/
theorem lookup_dataOfTable (t : Table) (key : String) :
    (dataOfTable t).lookup key = (t.get? key).map (·.value.datum) := by
  obtain ⟨origin, entries⟩ := t
  rw [dataOfTable, dataOfEntries_eq_map, get?]
  induction entries with
  | nil => rfl
  | cons e rest ih =>
    rw [List.map_cons, List.lookup_cons, ih, List.find?_cons, BEq.comm]
    cases e.1.value == key <;> rfl

/-- The keys of the data of a well-formed table ascend. -/
theorem WellFormed.dataOfTable_ascend {t : Table} (wf : t.WellFormed) :
    (dataOfTable t).Pairwise (·.1 < ·.1) := by
  obtain ⟨origin, entries⟩ := t
  rw [dataOfTable, dataOfEntries_eq_map, List.pairwise_map]
  exact wf.ascend

/-- Well-formed tables have the same data if they have the same datum under each key, in whatever
    order and form the keys were written. -/
theorem WellFormed.dataOfTable_eq_iff {t t' : Table} (wf : t.WellFormed) (wf' : t'.WellFormed) :
    dataOfTable t = dataOfTable t' ↔
      ∀ key, (t.get? key).map (·.value.datum) = (t'.get? key).map (·.value.datum) := by
  simp only [← lookup_dataOfTable]
  constructor
  · intro same key
    rw [same]
  · intro same
    -- Lists that ascend are the same if they have the same members.
    have asymm : Std.Asymm fun e e' : String × Datum => e.1 < e'.1 := ⟨fun _ _ => lt_asymm⟩
    refine wf.dataOfTable_ascend.eq_of_mem_iff wf'.dataOfTable_ascend fun (key, d) => ?_
    rw [← lookup_eq_some_iff_mem wf.dataOfTable_ascend,
      ← lookup_eq_some_iff_mem wf'.dataOfTable_ascend, same key]

end TableOf

end ProjectFile.Toml
