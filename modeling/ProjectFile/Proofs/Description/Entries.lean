import Mathlib.Data.List.Induction
import ProjectFile.Description.Basic

/-!
# Entries that are set one after the other

The arguments of a command and the links of a description are made by setting entries one after
the other.  Each entry is one of those that were set, and setting the entries of such a collection
again, in its own order, gives the collection.

## Key results

- `Arguments.mem_of_mem_ofList`, `Links.mem_of_mem_insertMany`: where an entry comes from
- `Arguments.keys_ofList`, `Arguments.get?_ofList`: the order of the keys, and what is under them
- `Arguments.ofList_entries`, `Links.insertMany_toList`: setting all entries again
- `Links.mem_iff`: the links are those that are found at their paths
-/

namespace ProjectFile

/-! ## Arguments -/

/-- Putting an entry adds no other one. -/
private theorem mem_of_mem_putEntry {key : String} {value : Option String}
    {entries : List (String × Option String)} {e : String × Option String}
    (h : e ∈ putEntry key value entries) : e = (key, value) ∨ e ∈ entries := by
  induction entries with
  | nil => exact .inl (List.mem_singleton.1 h)
  | cons first rest ih =>
    obtain ⟨k, v⟩ := first
    rw [putEntry] at h
    -- The entry is put over the first one, or further back.
    split at h
    · rename_i same
      rcases List.mem_cons.1 h with rfl | h
      · exact .inl (by rw [same])
      · exact .inr (List.mem_cons_of_mem _ h)
    · rcases List.mem_cons.1 h with rfl | h
      · exact .inr (by simp)
      · exact (ih h).imp_right (List.mem_cons_of_mem _)

/-- An entry with a new key is put at the end. -/
private theorem putEntry_of_fresh {key : String} (value : Option String)
    {entries : List (String × Option String)} (fresh : key ∉ entries.map Prod.fst) :
    putEntry key value entries = entries ++ [(key, value)] := by
  induction entries with
  | nil => rfl
  | cons first rest ih =>
    obtain ⟨k, v⟩ := first
    simp only [List.map_cons, List.mem_cons, not_or] at fresh
    rw [putEntry, if_neg (Ne.symm fresh.1), ih fresh.2, List.cons_append]

namespace Arguments

/-- Arguments with the same entries are equal. -/
private theorem eq_of_entries {a b : Arguments} (h : a.entries = b.entries) : a = b := by
  cases a
  cases b
  simpa using h

/-- Each entry of some settings is one of them, or was there before. -/
private theorem mem_of_mem_foldl_insert {settings : List (String × Option String)} {a : Arguments}
    {e : String × Option String}
    (h : e ∈ (settings.foldl (fun a s => a.insert s.1 s.2) a).entries) :
    e ∈ a.entries ∨ e ∈ settings := by
  induction settings generalizing a with
  | nil => exact .inl h
  | cons s rest ih =>
    rcases ih h with h | h
    · rcases mem_of_mem_putEntry h with rfl | h
      · exact .inr (by simp)
      · exact .inl h
    · exact .inr (List.mem_cons_of_mem _ h)

/-- Each entry is one of those that were set. -/
theorem mem_of_mem_ofList {settings : List (String × Option String)} {e : String × Option String}
    (h : e ∈ (ofList settings).entries) : e ∈ settings := by
  rcases mem_of_mem_foldl_insert h with h | h
  · simp [empty] at h
  · exact h

/-- The last setting is set last. -/
private theorem ofList_append (settings : List (String × Option String))
    (s : String × Option String) : ofList (settings ++ [s]) = (ofList settings).insert s.1 s.2 := by
  rw [ofList, List.foldl_append, List.foldl_cons, List.foldl_nil, ← ofList]

/-- The keys stand in the order in which they are set first. -/
theorem keys_ofList (settings : List (String × Option String)) :
    (ofList settings).keys = (settings.map Prod.fst).eraseDups := by
  -- The last setting adds its key at the end, or finds it in its place.
  induction settings using List.reverseRecOn with
  | nil => rfl
  | append_singleton settings s ih =>
    rw [ofList_append, keys_insert, ih, List.map_append, List.eraseDups_append]
    by_cases known : s.1 ∈ (settings.map Prod.fst).eraseDups
    · rw [if_pos known]
      simp [List.removeAll, List.mem_eraseDups.1 known]
    · rw [if_neg known]
      simp [List.removeAll, mt List.mem_eraseDups.2 known, List.eraseDups_cons]

/-- Under a key is what is set there last. -/
theorem get?_ofList (settings : List (String × Option String)) (key : String) :
    (ofList settings).get? key = (settings.filter (·.1 == key)).getLast?.map Prod.snd := by
  induction settings using List.reverseRecOn with
  | nil => rfl
  | append_singleton settings s ih =>
    rw [ofList_append, get?_insert, ih, List.filter_append]
    by_cases same : key = s.1
    · simp [same]
    · simp [same, Ne.symm same]

/-- Setting entries whose keys are not there yet adds them at the end. -/
private theorem entries_foldl_insert {rest : List (String × Option String)} {a : Arguments}
    (nodup : ((a.entries ++ rest).map Prod.fst).Nodup) :
    (rest.foldl (fun a s => a.insert s.1 s.2) a).entries = a.entries ++ rest := by
  -- Setting the first of them moves it from the rest to the end of what is there.
  induction rest generalizing a with
  | nil => simp
  | cons s rest ih =>
    have fresh : s.1 ∉ a.entries.map Prod.fst := by
      intro mem
      rw [List.map_append, List.nodup_append] at nodup
      exact nodup.2.2 _ mem s.1 (by simp) rfl
    have after : (a.insert s.1 s.2).entries = a.entries ++ [s] := putEntry_of_fresh _ fresh
    rw [List.foldl_cons, ih, after, List.append_assoc, List.singleton_append]
    rwa [after, List.append_assoc, List.singleton_append]

/-- Setting the entries of some arguments one after the other gives the arguments. -/
theorem ofList_entries (a : Arguments) : ofList a.entries = a := by
  apply eq_of_entries
  exact entries_foldl_insert (by simpa [empty] using a.nodup)

end Arguments

/-! ## Links -/

/-- A link whose path is behind those of all others is set at the end. -/
private theorem putLink_of_last {link : Link} {links : List Link}
    (last : ∀ l ∈ links, l.Before link) : putLink link links = links ++ [link] := by
  induction links with
  | nil => rfl
  | cons l rest ih =>
    have before : l.path < link.path := last l (by simp)
    have notAfter : ¬ link.path < l.path := String.lt_asymm before
    have other : ¬ link.path = l.path := fun same => String.lt_irrefl _ (same ▸ before)
    rw [putLink, if_neg notAfter, if_neg other, ih fun l h => last l (by simp [h]),
      List.cons_append]

namespace Links

/-- Links in the same list are equal. -/
theorem eq_of_toList {a b : Links} (h : a.toList = b.toList) : a = b := by
  cases a
  cases b
  simpa using h

/-- A link is found at its path. -/
theorem get?_of_mem {ls : Links} {l : Link} (mem : l ∈ ls.toList) : ls.get? l.path = some l := by
  obtain ⟨links, sorted⟩ := ls
  change l ∈ links at mem
  rw [get?]
  induction links with
  | nil => simp at mem
  | cons first rest ih =>
    rw [List.pairwise_cons] at sorted
    rcases List.mem_cons.1 mem with rfl | mem
    · simp
    · -- All links behind the first one have other paths.
      have before : first.path < l.path := sorted.1 l mem
      have other : first.path ≠ l.path := fun same => String.lt_irrefl _ (same ▸ before)
      rw [List.find?_cons_of_neg (by simpa using other)]
      exact ih sorted.2 mem

/-- A link is one of a set if it is found at its path, and only then. -/
theorem mem_iff {ls : Links} {l : Link} : l ∈ ls.toList ↔ ls.get? l.path = some l :=
  ⟨get?_of_mem, List.mem_of_find?_eq_some⟩

/-- Each of some links that are set is one of them, or was there before. -/
theorem mem_of_mem_insertMany {links : List Link} {set : Links} {l : Link}
    (h : l ∈ (set.insertMany links).toList) : l ∈ set.toList ∨ l ∈ links := by
  induction links generalizing set with
  | nil => exact .inl h
  | cons link rest ih =>
    rcases ih h with h | h
    · rcases mem_of_mem_putLink h with rfl | h
      · exact .inr (by simp)
      · exact .inl h
    · exact .inr (List.mem_cons_of_mem _ h)

/-- Setting links that come behind all that are there adds them at the end. -/
private theorem toList_insertMany {rest : List Link} {set : Links}
    (sorted : (set.toList ++ rest).Pairwise Link.Before) :
    (set.insertMany rest).toList = set.toList ++ rest := by
  -- As above: each link moves from the rest to the end of what is there.
  induction rest generalizing set with
  | nil => simp [insertMany]
  | cons link rest ih =>
    have last : ∀ l ∈ set.toList, l.Before link := by
      intro l h
      rw [List.pairwise_append] at sorted
      exact sorted.2.2 l h link (by simp)
    have after : (set.insert link).toList = set.toList ++ [link] := putLink_of_last last
    rw [insertMany, List.foldl_cons]
    have others := @ih (set.insert link)
    rw [after, List.append_assoc, List.singleton_append] at others
    exact others sorted

/-- Setting some links one after the other, in their order, gives the links. -/
theorem insertMany_toList (ls : Links) : empty.insertMany ls.toList = ls := by
  apply eq_of_toList
  exact toList_insertMany ls.sorted

end Links

end ProjectFile
