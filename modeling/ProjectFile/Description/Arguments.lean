/-! # Arguments of a build command

A build command has arguments: keys, each with a value or none, in the order in which the keys
were first set.  Setting a key again replaces its value and keeps its place.

`Arguments.get?_insert` says what a look-up finds after a key is set, and
`Arguments.keys_insert` in which order the keys stand. -/

namespace ProjectFile

/-- The list with `value` under `key`: in the place of the key if it is there, else at the
    end. -/
def putEntry (key : String) (value : Option String) :
    List (String × Option String) → List (String × Option String)
  | [] => [(key, value)]
  | (k, v) :: rest => if k = key then (k, value) :: rest else (k, v) :: putEntry key value rest

/-- A key is put at the end, unless it is there. -/
private theorem map_fst_putEntry (key : String) (value : Option String)
    (entries : List (String × Option String)) :
    (putEntry key value entries).map Prod.fst =
      if key ∈ entries.map Prod.fst then entries.map Prod.fst
      else entries.map Prod.fst ++ [key] := by
  induction entries with
  | nil => simp [putEntry]
  | cons e rest ih =>
    obtain ⟨k, v⟩ := e
    -- The key is the first one, or it is looked for behind it.
    by_cases hk : k = key
    · simp [putEntry, hk]
    · have hk' : ¬ key = k := fun h => hk h.symm
      simp only [putEntry, if_neg hk, List.map_cons, ih, List.mem_cons, hk', false_or]
      split <;> simp

/-- No key comes to occur twice. -/
private theorem nodup_putEntry (key : String) (value : Option String)
    {entries : List (String × Option String)} (h : (entries.map Prod.fst).Nodup) :
    ((putEntry key value entries).map Prod.fst).Nodup := by
  rw [map_fst_putEntry]
  split
  · exact h
  · rename_i fresh
    rw [List.nodup_append]
    refine ⟨h, by simp, ?_⟩
    intro a ha b hb
    rw [List.mem_singleton] at hb
    subst hb
    exact fun eq => fresh (eq ▸ ha)

/-- The arguments of a build command, in insertion order.  No key occurs twice. -/
structure Arguments where
  entries : List (String × Option String) := []
  nodup : (entries.map Prod.fst).Nodup := by simp
deriving DecidableEq

namespace Arguments

/-- No arguments. -/
def empty : Arguments := {}

/-- The keys, in insertion order. -/
def keys (a : Arguments) : List String :=
  a.entries.map Prod.fst

/-- What is set under a key, if the key is there. -/
def get? (a : Arguments) (key : String) : Option (Option String) :=
  a.entries.lookup key

/-- Sets the value under a key. -/
def insert (a : Arguments) (key : String) (value : Option String) : Arguments where
  entries := putEntry key value a.entries
  nodup := nodup_putEntry key value a.nodup

/-- The arguments that a list of settings leaves, the first of them made first. -/
def ofList (settings : List (String × Option String)) : Arguments :=
  settings.foldl (fun a s => a.insert s.1 s.2) empty

/-- Whether two commands have the same value under every key.  The order of the keys does not
    matter. -/
def same (a b : Arguments) : Bool :=
  a.entries.length == b.entries.length && a.entries.all fun e => b.get? e.1 == some e.2

/-- A key that is set keeps its place, or comes last if it is new. -/
theorem keys_insert (a : Arguments) (key : String) (value : Option String) :
    (a.insert key value).keys = if key ∈ a.keys then a.keys else a.keys ++ [key] :=
  map_fst_putEntry key value a.entries

/-- A look-up finds the first entry, or goes on behind it. -/
private theorem lookup_cons_eq_if (k k' : String) (v : Option String)
    (entries : List (String × Option String)) :
    ((k', v) :: entries).lookup k = if k = k' then some v else entries.lookup k := by
  rw [List.lookup_cons]
  by_cases same : k = k'
  · rw [if_pos same, beq_iff_eq.2 same]
  · rw [if_neg same, beq_false_of_ne same]

/-- Putting an entry changes what is found under its key only. -/
private theorem lookup_putEntry (key : String) (value : Option String)
    (entries : List (String × Option String)) (k : String) :
    (putEntry key value entries).lookup k = if k = key then some value else entries.lookup k := by
  induction entries with
  | nil => exact lookup_cons_eq_if k key value []
  | cons e rest ih =>
    obtain ⟨k', v⟩ := e
    rw [putEntry, lookup_cons_eq_if]
    -- The entry is put in the first place, or further back.
    by_cases first : k' = key
    · rw [if_pos first, lookup_cons_eq_if, first]
      split <;> rfl
    · rw [if_neg first, lookup_cons_eq_if, ih]
      by_cases here : k = k'
      · rw [if_pos here, if_pos here, if_neg fun same => first (here ▸ same)]
      · rw [if_neg here, if_neg here]

/-- What is found once a value is set under a key. -/
theorem get?_insert (a : Arguments) (key : String) (value : Option String) (k : String) :
    (a.insert key value).get? k = if k = key then some value else a.get? k :=
  lookup_putEntry key value a.entries k

end Arguments

end ProjectFile
