import Mathlib.Data.Option.Basic
import Mathlib.Data.String.Basic
import ProjectFile.Toml.Parse

/-!
# What is read from a settings file is well-formed

Each table that is read has its keys in order and each of them once, however its entries were
spelled: under headers, under dotted keys or between braces.  So two tables with the same value
under each key have the same list of entries, and the first entry of a key is its only one.

The invariant is kept by each change of a table, so by each change at the end of a path, and the
parser does nothing else with tables.

## Key results

- `TableOf.WellFormed.update`: a change at the end of a path keeps well-formed tables
- `wellFormed_of_valueWithin?`: every value that is read is well-formed
- `wellFormed_of_parse`: so is the table of a whole file
-/

namespace ProjectFile.Toml

variable {t t' : Table} {key : Key} {s rest : List Char}

/-! ## Entries in the order of their keys -/

/-- Whether the keys of entries ascend. -/
def KeysAscend (entries : List (Spanned String × Spanned α)) : Prop :=
  entries.Pairwise fun e e' => e.1.value < e'.1.value

namespace TableOf

/-- Insertion adds the new entry and loses none. -/
private theorem mem_insertEntry {key : Spanned String} {value : Spanned α}
    {entries : List (Spanned String × Spanned α)} {e : Spanned String × Spanned α} :
    e ∈ insertEntry key value entries ↔ e = (key, value) ∨ e ∈ entries := by
  induction entries with
  | nil => simp [insertEntry]
  | cons first rest ih =>
    rw [insertEntry]
    split
    · rw [List.mem_cons]
    · rw [List.mem_cons, ih, List.mem_cons, or_left_comm]

/-- A new key finds its place among ascending ones. -/
private theorem keysAscend_insertEntry {key : Spanned String} {value : Spanned α}
    {entries : List (Spanned String × Spanned α)} (ascend : KeysAscend entries)
    (new : ∀ e ∈ entries, e.1.value ≠ key.value) : KeysAscend (insertEntry key value entries) := by
  induction entries with
  | nil => exact List.pairwise_singleton _ _
  | cons first rest ih =>
    have ⟨below, ascend'⟩ := List.pairwise_cons.mp ascend
    rw [insertEntry]
    split
    · rename_i lower
      refine List.Pairwise.cons (fun e there => ?_) ascend
      obtain rfl | there := List.mem_cons.mp there
      · exact lower
      · exact lower.trans (below e there)
    · rename_i notLower
      -- A key that is neither lower nor the same is higher.
      have higher : first.1.value < key.value :=
        lt_of_le_of_ne (not_lt.mp notLower) (new first List.mem_cons_self)
      refine List.Pairwise.cons (fun e there => ?_)
        (ih ascend' fun e there => new e (List.mem_cons_of_mem _ there))
      obtain rfl | there := mem_insertEntry.mp there
      · exact higher
      · exact below e there

/-- Replacement changes values only, so the keys stay. -/
private theorem map_fst_replaceEntry (key : String) (value : Spanned α)
    (entries : List (Spanned String × Spanned α)) :
    (replaceEntry key value entries).map Prod.fst = entries.map Prod.fst := by
  induction entries with
  | nil => rfl
  | cons first rest ih =>
    rw [replaceEntry]
    split
    · rfl
    · rw [List.map_cons, ih, List.map_cons]

/-- Keys ascend as before when a value is replaced. -/
private theorem keysAscend_replaceEntry {key : String} {value : Spanned α}
    {entries : List (Spanned String × Spanned α)} (ascend : KeysAscend entries) :
    KeysAscend (replaceEntry key value entries) := by
  have keys : (entries.map Prod.fst).Pairwise fun k k' => k.value < k'.value :=
    List.pairwise_map.mpr ascend
  rw [← map_fst_replaceEntry key value, List.pairwise_map] at keys
  exact keys

/-- After a replacement an entry has the new value, or was there before. -/
private theorem eq_or_mem_of_mem_replaceEntry {key : String} {value : Spanned α}
    {entries : List (Spanned String × Spanned α)} {e : Spanned String × Spanned α}
    (there : e ∈ replaceEntry key value entries) : e.2 = value ∨ e ∈ entries := by
  induction entries with
  | nil => exact .inr there
  | cons first rest ih =>
    rw [replaceEntry] at there
    split at there
    · obtain rfl | there := List.mem_cons.mp there
      · exact .inl rfl
      · exact .inr (List.mem_cons_of_mem _ there)
    · obtain rfl | there := List.mem_cons.mp there
      · exact .inr List.mem_cons_self
      · exact (ih there).imp_right (List.mem_cons_of_mem _)

/-! ## Looking up -/

/-- Nothing is found under a key exactly if no entry has it. -/
theorem get?_eq_none_iff {t : TableOf α} {key : String} :
    t.get? key = none ↔ ∀ e ∈ t.entries, e.1.value ≠ key := by
  simp [get?]

/-- What is found under a key is the value of an entry with that key. -/
theorem exists_mem_of_get? {t : TableOf α} {key : String} {v : Spanned α}
    (found : t.get? key = some v) : ∃ k, (k, v) ∈ t.entries ∧ k.value = key := by
  obtain ⟨⟨k, v⟩, first, rfl⟩ := Option.map_eq_some_iff.mp found
  exact ⟨k, List.mem_of_find?_eq_some first, by simpa using List.find?_some first⟩

/-- Nothing is found under a key that was removed. -/
theorem get?_remove (t : TableOf α) (key : String) : (t.remove key).get? key = none := by
  rw [get?_eq_none_iff]
  intro e there
  simpa using (List.mem_filter.mp there).2

/-! ## The first entry of a table -/

section

variable {origin : Origin} {k : Spanned String} {v : Spanned α}
  {rest : List (Spanned String × Spanned α)} {key : String}

/-- The first entry is found under its key. -/
theorem get?_cons_of_eq (here : k.value = key) :
    get? ⟨origin, (k, v) :: rest⟩ key = some v := by
  simp [get?, here]

/-- Under another key than that of the first entry, the rest is looked at. -/
theorem get?_cons_of_ne (other : k.value ≠ key) :
    get? ⟨origin, (k, v) :: rest⟩ key = get? ⟨origin, rest⟩ key := by
  simp [get?, other]

/-- Behind a key, it does not come again. -/
theorem get?_behind (ascend : KeysAscend ((k, v) :: rest)) (here : k.value = key) :
    get? ⟨origin, rest⟩ key = none := by
  have above := (List.pairwise_cons.mp ascend).1
  exact get?_eq_none_iff.mpr fun e there => (here ▸ above e there).ne'

/-- The first entry is removed with its key. -/
theorem remove_cons_of_eq (here : k.value = key) :
    remove ⟨origin, (k, v) :: rest⟩ key = remove ⟨origin, rest⟩ key := by
  simp [remove, here]

/-- The first entry stays when another key is removed. -/
theorem remove_cons_of_ne (other : k.value ≠ key) :
    remove ⟨origin, (k, v) :: rest⟩ key =
      ⟨origin, (k, v) :: (remove ⟨origin, rest⟩ key).entries⟩ := by
  simp [remove, other]

end

end TableOf

/-! ## Well-formed values -/

mutual

/-- Whether the tables in a value are well-formed, and no array of tables in it is empty. -/
inductive Value.WellFormed : Value → Prop where
  | string (s : String) : Value.WellFormed (.string s)
  | integer (n : Int) : Value.WellFormed (.integer n)
  | float (x : FloatText) : Value.WellFormed (.float x)
  | boolean (b : Bool) : Value.WellFormed (.boolean b)
  | datetime : Value.WellFormed .datetime
  | array {items : List (Spanned Value)} (each : ∀ v ∈ items, Value.WellFormed v.value) :
      Value.WellFormed (.array items)
  | tables {items : List (Spanned Table)} (nonempty : items ≠ [])
      (each : ∀ t ∈ items, TableOf.WellFormed t.value) : Value.WellFormed (.tables items)
  | table {t : Table} (wf : TableOf.WellFormed t) : Value.WellFormed (.table t)

/-- Whether the keys of a table ascend, and those of the tables in it. -/
inductive TableOf.WellFormed : Table → Prop where
  | intro {t : Table} (ascend : KeysAscend t.entries)
      (each : ∀ e ∈ t.entries, Value.WellFormed e.2.value) : TableOf.WellFormed t

end

/-! ## Changes of a table -/

namespace TableOf.WellFormed

/-- The keys of a well-formed table ascend. -/
theorem ascend : t.WellFormed → KeysAscend t.entries
  | .intro ascend _ => ascend

/-- The values in a well-formed table are well-formed. -/
theorem each : t.WellFormed → ∀ e ∈ t.entries, e.2.value.WellFormed
  | .intro _ each => each

/-- A table without entries is well-formed, wherever it comes from. -/
theorem empty (origin : Origin) : TableOf.WellFormed { origin } :=
  .intro .nil nofun

/-- What is found in a well-formed table is well-formed. -/
theorem of_get? {key : String} {v : Spanned Value} (wf : t.WellFormed)
    (found : t.get? key = some v) : v.value.WellFormed := by
  obtain ⟨k, there, -⟩ := exists_mem_of_get? found
  exact wf.each _ there

/-- A table that is found in a well-formed one is well-formed. -/
theorem of_get?_table {key : String} {span : Span} {child : Table} (wf : t.WellFormed)
    (found : t.get? key = some ⟨span, .table child⟩) : child.WellFormed := by
  cases wf.of_get? found with
  | table wf => exact wf

/-- The tables of an array that is found in a well-formed table are well-formed. -/
private theorem of_get?_tables {key : String} {span : Span} {items : List (Spanned Table)}
    (wf : t.WellFormed) (found : t.get? key = some ⟨span, .tables items⟩) :
    ∀ item ∈ items, item.value.WellFormed := by
  cases wf.of_get? found with
  | tables _ each => exact each

/-- A table stays well-formed when a well-formed value is added under a new key. -/
theorem add {v : Spanned Value} (wf : t.WellFormed) (new : t.get? key.value = none)
    (value : v.value.WellFormed) : (t.add key v).WellFormed := by
  refine .intro (keysAscend_insertEntry wf.ascend (get?_eq_none_iff.mp new)) fun e there => ?_
  obtain rfl | there := mem_insertEntry.mp there
  · exact value
  · exact wf.each e there

/-- A table stays well-formed when one of its values is replaced by a well-formed one. -/
theorem replace {key : String} {v : Spanned Value} (wf : t.WellFormed)
    (value : v.value.WellFormed) : (t.replace key v).WellFormed := by
  refine .intro (keysAscend_replaceEntry wf.ascend) fun e there => ?_
  obtain same | there := eq_or_mem_of_mem_replaceEntry there
  · exact same ▸ value
  · exact wf.each e there

/-- A table stays well-formed when a key is removed. -/
theorem remove (wf : t.WellFormed) (key : String) : (t.remove key).WellFormed :=
  .intro (wf.ascend.sublist List.filter_sublist) fun e there =>
    wf.each e (List.mem_of_mem_filter there)

/-- Where a table comes from has no part in whether it is well-formed. -/
private theorem withOrigin (wf : t.WellFormed) (origin : Origin) :
    TableOf.WellFormed { t with origin } :=
  .intro wf.ascend wf.each

/-- A value is added only if its key is new, and then keeps the table well-formed. -/
private theorem addNew {v : Spanned Value} (wf : t.WellFormed) (value : v.value.WellFormed)
    (added : TableOf.addNew key v t = some t') : t'.WellFormed := by
  rw [TableOf.addNew] at added
  split at added
  · rename_i new
    cases added
    exact wf.add new value
  · cases added

/-- A table is defined by removing what was implied under its key, so that the key is new. -/
private theorem define {child : Spanned Table} (wf : t.WellFormed)
    (childWf : child.value.WellFormed) : (TableOf.define key child t).WellFormed :=
  (wf.remove key.value).add (get?_remove t key.value) (.table childWf)

/-- A table stays well-formed when one more is added to an array of tables in it. -/
private theorem pushTable {item : Spanned Table} (wf : t.WellFormed)
    (itemWf : item.value.WellFormed)
    (pushed : TableOf.pushTable key item t = some t') : t'.WellFormed := by
  rw [TableOf.pushTable] at pushed
  split at pushed
  · -- The first table of an array makes the array.
    rename_i new
    cases pushed
    exact wf.add new (.tables (List.cons_ne_nil _ _) (List.forall_mem_singleton.mpr itemWf))
  · rename_i span items found
    cases pushed
    -- Further tables stand behind those that are there.
    have each : ∀ t ∈ items ++ [item], t.value.WellFormed :=
      List.forall_mem_append.mpr ⟨wf.of_get?_tables found, List.forall_mem_singleton.mpr itemWf⟩
    exact wf.replace (.tables (by simp) each)
  · cases pushed

/-- A table that a header opens is a new one, or one that was only implied until then. -/
private theorem undefined? (wf : t.WellFormed) (new : TableOf.undefined? key t = some t') :
    t'.WellFormed := by
  rw [TableOf.undefined?] at new
  split at new
  · cases new
    exact .empty _
  · rename_i found
    split at new
    · cases new
      exact (wf.of_get?_table found).withOrigin _
    · cases new
  · cases new

/-! ## Changes along a path -/

/-- A change that keeps well-formed tables keeps them also at the end of a path. -/
theorem update {dotted : Bool} {f : Table → Option Table} {path : List Key}
    (change : ∀ t t', t.WellFormed → f t = some t' → t'.WellFormed) (wf : t.WellFormed)
    (updated : TableOf.update dotted f path t = some t') : t'.WellFormed := by
  -- The induction follows the path down; on the way back each step adds or replaces one value.
  induction path generalizing t t' with
  | nil => exact change t t' wf updated
  | cons key path ih =>
    rw [TableOf.update] at updated
    split at updated
    · rename_i new
      obtain ⟨child, below, done⟩ := Option.bind_eq_some_iff.mp updated
      cases done
      exact wf.add new (.table (ih (.empty _) below))
    · rename_i found
      obtain ⟨_, -, updated⟩ := Option.bind_eq_some_iff.mp updated
      obtain ⟨child, below, done⟩ := Option.bind_eq_some_iff.mp updated
      cases done
      exact wf.replace (.table (ih (wf.of_get?_table found) below))
    · rename_i span items found
      -- Below an array of tables the path goes on in the last one, and the others stay.
      obtain ⟨last, isLast, updated⟩ := Option.bind_eq_some_iff.mp updated
      obtain ⟨child, below, done⟩ := Option.bind_eq_some_iff.mp updated
      cases done
      have each := wf.of_get?_tables found
      have childWf : child.WellFormed := ih (each last (List.mem_of_getLast? isLast)) below
      have each' : ∀ t ∈ items.dropLast ++ [⟨last.span, child⟩], t.value.WellFormed :=
        List.forall_mem_append.mpr ⟨fun t there => each t (List.dropLast_subset items there),
          List.forall_mem_singleton.mpr childWf⟩
      exact wf.replace (.tables (by simp) each')
    · cases updated

/-- A table stays well-formed when a value is assigned at the end of a path, if it is
    well-formed. -/
private theorem assign {path : List Key} {v : Spanned Value} (wf : t.WellFormed)
    (value : v.value.WellFormed) (assigned : TableOf.assign path key v t = some t') :
    t'.WellFormed := by
  rw [TableOf.assign] at assigned
  split at assigned
  · exact wf.addNew value assigned
  · refine wf.update (fun t t' wf added => ?_) assigned
    split at added
    · exact wf.addNew value added
    · cases added

/-- The table at the end of a path in a well-formed one is well-formed. -/
private theorem at? {path : List Key} (wf : t.WellFormed) (found : TableOf.at? path t = some t') :
    t'.WellFormed := by
  -- As in a change, a path leads through tables and the last ones of arrays.
  induction path generalizing t with
  | nil =>
    cases found
    exact wf
  | cons key path ih =>
    rw [TableOf.at?] at found
    split at found
    · cases found
      exact .empty _
    · rename_i child here
      split at found
      · exact ih (wf.of_get?_table here) found
      · cases found
    · rename_i items here
      obtain ⟨last, isLast, found⟩ := Option.bind_eq_some_iff.mp found
      exact ih (wf.of_get?_tables here last (List.mem_of_getLast? isLast)) found
    · cases found

end TableOf.WellFormed

/-! ## Values that are read -/

/-- What each item keeps, the items between brackets or braces keep. -/
private theorem items?_induction {α : Type} {P : α → Prop} {close : Char}
    {item? : α → List Char → Option (α × List Char)} {fuel : Nat} {acc acc' : α}
    (step : ∀ acc s acc' rest, P acc → item? acc s = some (acc', rest) → P acc')
    (start : P acc) (read : items? close item? fuel acc s = some (acc', rest)) : P acc' := by
  -- The induction is on the fuel, as each round reads one item; `P` carries over from round to
  -- round.
  induction fuel generalizing acc s with
  | zero => cases read
  | succ fuel ih =>
    rw [items?] at read
    obtain ⟨s', -, read⟩ := Option.bind_eq_some_iff.mp read
    split at read
    · cases read
    · split at read
      · cases read
        exact start
      · obtain ⟨⟨acc₁, s₁⟩, one, read⟩ := Option.bind_eq_some_iff.mp read
        obtain ⟨s₂, -, read⟩ := Option.bind_eq_some_iff.mp read
        -- The item that was read takes `P` on, whether a comma or the end follows it.
        have kept := step _ _ _ _ start one
        split at read
        · exact ih kept read
        · split at read
          · cases read
            exact kept
          · cases read
        · cases read

/-- A pair keeps a well-formed table, if its value is well-formed. -/
private theorem wellFormed_of_pair? {pad? : List Char → Option (List Char)}
    {value? : List Char → Option (Spanned Value × List Char)}
    (values : ∀ s v rest, value? s = some (v, rest) → v.value.WellFormed) (wf : t.WellFormed)
    (read : pair? pad? value? t s = some (t', rest)) : t'.WellFormed := by
  rw [pair?] at read
  obtain ⟨⟨path, key, s₁⟩, -, read⟩ := Option.bind_eq_some_iff.mp read
  obtain ⟨s₂, -, read⟩ := Option.bind_eq_some_iff.mp read
  split at read
  · obtain ⟨s₃, -, read⟩ := Option.bind_eq_some_iff.mp read
    obtain ⟨⟨value, s₄⟩, one, read⟩ := Option.bind_eq_some_iff.mp read
    obtain ⟨t₁, assigned, done⟩ := Option.bind_eq_some_iff.mp read
    cases done
    -- All that a pair does with the table is to assign its value.
    exact wf.assign (values _ _ _ one) assigned
  · cases read

/-- A word or a number is well-formed. -/
private theorem wellFormed_of_scalarValue? {v : Value} (read : scalarValue? s = some v) :
    v.WellFormed := by
  -- Only a number with a point or an exponent needs a look: the other values are well formed as
  -- they are.
  rw [scalarValue?] at read
  split at read
  · cases read
    exact .boolean true
  split at read
  · cases read
    exact .boolean false
  split at read
  · cases read
    exact .datetime
  split at read
  · cases read
    exact .integer _
  · obtain ⟨x, -, rfl⟩ := Option.map_eq_some_iff.mp read
    exact .float x

/-- A date, a word or a number is well-formed. -/
private theorem wellFormed_of_scalar? {v : Value} (read : scalar? s = some (v, rest)) :
    v.WellFormed := by
  rw [scalar?] at read
  split at read
  · split at read
    · obtain ⟨_, -, done⟩ := Option.bind_eq_some_iff.mp read
      cases done
      exact .datetime
    · obtain ⟨v, one, done⟩ := Option.bind_eq_some_iff.mp read
      cases done
      exact wellFormed_of_scalarValue? one
  · obtain ⟨v, one, done⟩ := Option.bind_eq_some_iff.mp read
    cases done
    exact wellFormed_of_scalarValue? one

/-- A value without parts is well-formed. -/
private theorem wellFormed_of_leaf? {v : Spanned Value} (read : leaf? s = some (v, rest)) :
    v.value.WellFormed := by
  rw [leaf?] at read
  split at read
  · cases read
    exact .string _
  · obtain ⟨⟨v, rest⟩, one, done⟩ := Option.bind_eq_some_iff.mp read
    cases done
    exact wellFormed_of_scalar? one

/-- Every value that is read is well-formed, down to any depth. -/
theorem wellFormed_of_valueWithin? {depth : Nat} {v : Spanned Value}
    (read : valueWithin? depth s = some (v, rest)) : v.value.WellFormed := by
  -- The depth bounds the nesting, so the items of an array and the values of a table have one
  -- less.
  induction depth generalizing s v rest with
  | zero => exact wellFormed_of_leaf? read
  | succ depth ih =>
    unfold valueWithin? at read
    split at read
    · obtain ⟨⟨items, s₁⟩, inside, done⟩ := Option.bind_eq_some_iff.mp read
      cases done
      -- The items that were read so far are the invariant of an array.
      refine .array (items?_induction (P := fun items : List (Spanned Value) =>
        ∀ v ∈ items, v.value.WellFormed) (fun acc s acc' rest each one => ?_)
        (List.forall_mem_nil _) inside)
      obtain ⟨⟨v, s₂⟩, one, done⟩ := Option.bind_eq_some_iff.mp one
      cases done
      exact List.forall_mem_append.mpr ⟨each, List.forall_mem_singleton.mpr (ih one)⟩
    · obtain ⟨⟨t, s₁⟩, inside, done⟩ := Option.bind_eq_some_iff.mp read
      cases done
      -- The table that was built so far is the invariant of a table between braces.
      exact .table (items?_induction
        (fun _ _ _ _ wf one => wellFormed_of_pair? (fun _ _ _ => ih) wf one)
        (TableOf.WellFormed.empty _) inside)
    · exact wellFormed_of_leaf? read

/-! ## Files that are read -/

namespace Draft

variable {d d' : Draft}

/-- Whether both tables of a file that is being read are well-formed. -/
structure WellFormed (d : Draft) : Prop where
  whole : d.whole.WellFormed
  part : d.part.WellFormed

/-- The part that was read is put into the whole, which stays well-formed. -/
private theorem WellFormed.close? (wf : d.WellFormed) (closed : d.close? = some t) :
    t.WellFormed := by
  rw [Draft.close?] at closed
  split at closed
  · cases closed
    exact wf.part
  · -- The header decides whether the part becomes a table or one more of an array.
    refine wf.whole.update (fun t t' tWf placed => ?_) closed
    split at placed
    · exact tWf.pushTable wf.part placed
    · cases placed
      exact tWf.define wf.part

/-- A header closes the part before it and starts a new one; both stay well-formed. -/
private theorem WellFormed.start? {h : Header} (wf : d.WellFormed)
    (started : d.start? h = some d') : d'.WellFormed := by
  rw [Draft.start?] at started
  obtain ⟨whole, closed, started⟩ := Option.bind_eq_some_iff.mp started
  -- What was read below the last header is put away first.
  have wholeWf := wf.close? closed
  dsimp only at started
  split at started
  · cases started
    exact ⟨wholeWf, .empty _⟩
  · obtain ⟨part, opened, done⟩ := Option.bind_eq_some_iff.mp started
    obtain ⟨parent, there, new⟩ := Option.bind_eq_some_iff.mp opened
    cases done
    exact ⟨wholeWf, (wholeWf.at? there).undefined? new⟩

end Draft

/-- Reading the lines of a file keeps the draft well-formed, and so the table that it ends with. -/
private theorem wellFormed_of_lines? {fuel : Nat} {d : Draft} (wf : d.WellFormed)
    (read : lines? fuel d s = some t) : t.WellFormed := by
  -- The induction is on the fuel, with a well-formed draft as the invariant; a line is a header,
  -- blank or a pair.
  induction fuel generalizing d s with
  | zero => cases read
  | succ fuel ih =>
    rw [lines?] at read
    split at read
    · exact wf.close? read
    split at read
    · obtain ⟨⟨h, s₁⟩, -, read⟩ := Option.bind_eq_some_iff.mp read
      obtain ⟨d', started, read⟩ := Option.bind_eq_some_iff.mp read
      obtain ⟨s₂, -, read⟩ := Option.bind_eq_some_iff.mp read
      exact ih (wf.start? started) read
    split at read
    · obtain ⟨s₁, -, read⟩ := Option.bind_eq_some_iff.mp read
      exact ih wf read
    · obtain ⟨⟨part, s₁⟩, one, read⟩ := Option.bind_eq_some_iff.mp read
      obtain ⟨s₂, -, read⟩ := Option.bind_eq_some_iff.mp read
      have partWf := wellFormed_of_pair? (fun _ _ _ => wellFormed_of_valueWithin?) wf.part one
      refine ih ?_ read
      exact ⟨wf.whole, partWf⟩

/-- The table that a text describes is well-formed. -/
theorem wellFormed_of_parse {text : String} (read : parse text = some t) : t.WellFormed :=
  wellFormed_of_lines? ⟨.empty _, .empty _⟩ read

end ProjectFile.Toml
