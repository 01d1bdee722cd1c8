import ProjectFile.Reading.Element

/-!
# The last child counts

Where an entry can stand only once, the last one counts, and those before it have no effect.
`IsLast` says which one that is by splitting the list of children there: nothing behind it is of
its kind, and what is before it does not matter.

## Key results

- `getLast?_filter_eq_some_iff`, `getLast?_filter_eq_none_iff`: the last one of a kind
- `Element.lastValue?_eq_some_iff`, `Element.lastValue?_eq_none_iff`: the value of the last child
-/

namespace ProjectFile

section
variable {α : Type} {p : α → Prop} {xs : List α} {x y : α}

/-- The last one in a list with a property: none behind it has the property. -/
def IsLast (p : α → Prop) (xs : List α) (x : α) : Prop :=
  ∃ before after, xs = before ++ x :: after ∧ p x ∧ ∀ y ∈ after, ¬ p y

/-- The last one is in the list. -/
theorem IsLast.mem (h : IsLast p xs x) : x ∈ xs := by
  obtain ⟨before, after, rfl, -, -⟩ := h
  simp

/-- The last one has the property. -/
theorem IsLast.holds (h : IsLast p xs x) : p x := by
  obtain ⟨before, after, -, isSuch, -⟩ := h
  exact isSuch

/-- The last one of those with a property is the last one in the list with it. -/
theorem getLast?_filter_eq_some_iff [DecidablePred p] :
    (xs.filter (p ·)).getLast? = some x ↔ IsLast p xs x := by
  rw [List.getLast?_filter, List.find?_eq_some_iff_append]
  -- The list is searched from its end, so both parts of it are reversed.
  constructor
  · rintro ⟨isSuch, after, before, eq, others⟩
    refine ⟨before.reverse, after.reverse, ?_, by simpa using isSuch, ?_⟩
    · rw [← List.reverse_reverse xs, eq]
      simp
    · intro y hy
      simpa using others y (List.mem_reverse.1 hy)
  · rintro ⟨before, after, rfl, isSuch, others⟩
    refine ⟨by simpa using isSuch, after.reverse, before.reverse, by simp, ?_⟩
    intro y hy
    simpa using others y (List.mem_reverse.1 hy)

/-- There is no last one exactly if none has the property. -/
theorem getLast?_filter_eq_none_iff [DecidablePred p] :
    (xs.filter (p ·)).getLast? = none ↔ ∀ x ∈ xs, ¬ p x := by
  rw [List.getLast?_eq_none_iff, List.filter_eq_nil_iff]
  simp

/-- There is only one last one. -/
theorem IsLast.unique (h : IsLast p xs x) (h' : IsLast p xs y) : x = y := by
  classical
  rw [← getLast?_filter_eq_some_iff] at h h'
  exact Option.some.inj (h.symm.trans h')

end

namespace Element

variable {e c : Element} {name value : String}

/-- The last child with a name. -/
theorem last?_eq_some_iff : e.last? name = some c ↔ IsLast (·.name = name) e.children c :=
  getLast?_filter_eq_some_iff

/-- There is no last child with a name exactly if no child has it. -/
theorem last?_eq_none_iff : e.last? name = none ↔ ∀ c ∈ e.children, c.name ≠ name :=
  getLast?_filter_eq_none_iff

/-- The value under a name is that of the last child with the name. -/
theorem lastValue?_eq_some_iff :
    e.lastValue? name = some value ↔ ∃ c, IsLast (·.name = name) e.children c ∧ c.value = value := by
  rw [lastValue?, Option.map_eq_some_iff]
  simp only [last?_eq_some_iff]

/-- There is no value under a name exactly if no child has it. -/
theorem lastValue?_eq_none_iff : e.lastValue? name = none ↔ ∀ c ∈ e.children, c.name ≠ name := by
  rw [lastValue?, Option.map_eq_none_iff, last?_eq_none_iff]

end Element

end ProjectFile
