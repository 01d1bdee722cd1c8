import ProjectFile.Proofs.Document.Idempotent

/-!
# Descriptions in normal form

A description is its own normal form exactly if its texts are trimmed, it has no empty name, its
arguments have values, and no location is set.  No more is needed: settings and links that are
trimmed already have different keys and paths, so setting them again leaves them in their places.

## Key results

- `BuildCommand.normalized_eq_self_iff`, `Links.insertMany_normalized_eq_self_iff`: the parts
- `Description.isNormal_iff`: when a description is its own normal form
-/

namespace ProjectFile

open ProjectFile.Text

/-! ## Parts -/

/-- A list is in normal form exactly if all that is in it is. -/
theorem map_eq_self_iff {α : Type _} {as : List α} {normal : α → α} :
    as.map normal = as ↔ ∀ a ∈ as, normal a = a := by
  refine ⟨fun h => ?_, Element.map_eq_self_of_mem⟩
  conv at h => rhs; rw [← List.map_id as]
  exact List.map_inj_left.1 h

/-- A name is in normal form exactly if it is trimmed and not empty. -/
private theorem filter_trim_eq_self_iff (name? : Option String) :
    (name?.map trim).filter (· ≠ "") = name? ↔
      ∀ name, name? = some name → trim name = name ∧ name ≠ "" := by
  cases name? with
  | none => simp
  | some name =>
    rw [Option.map_some, Option.filter_some]
    constructor
    · intro h name' eq
      cases eq
      -- An empty name would be dropped, but there is one.
      split at h
      · rename_i kept
        rw [Option.some.injEq] at h
        exact ⟨h, by simpa [h] using kept⟩
      · simp at h
    · intro h
      obtain ⟨trimmed, nonempty⟩ := h name rfl
      rw [trimmed, if_pos (by simpa using nonempty)]

/-- The normal form of an argument is in normal form. -/
private theorem normalEntry_normalEntry (e : String × Option String) :
    normalEntry (normalEntry e) = normalEntry e := by
  simp [normalEntry]

/-- A command is in normal form exactly if its name and its arguments are. -/
theorem BuildCommand.normalized_eq_self_iff (c : BuildCommand) :
    c.normalized = c ↔ trim c.name = c.name ∧ ∀ e ∈ c.arguments.entries, normalEntry e = e := by
  constructor
  · intro h
    refine ⟨congrArg BuildCommand.name h, fun e mem => ?_⟩
    -- What is left after normal entries are set is one of them.
    rw [← h] at mem
    obtain ⟨e', -, rfl⟩ := List.mem_map.1 (Arguments.mem_of_mem_ofList mem)
    exact normalEntry_normalEntry e'
  · rintro ⟨name, entries⟩
    rw [normalized, name, Element.map_eq_self_of_mem entries, Arguments.ofList_entries]

/-- A link is in normal form exactly if its path is trimmed. -/
theorem Link.normalized_eq_self_iff (l : Link) : l.normalized = l ↔ trim l.path = l.path := by
  refine ⟨congrArg Link.path, fun path => ?_⟩
  rw [normalized, path]

/-- Links are in normal form exactly if all their paths are trimmed. -/
theorem Links.insertMany_normalized_eq_self_iff (ls : Links) :
    empty.insertMany (ls.toList.map Link.normalized) = ls ↔
      ∀ l ∈ ls.toList, trim l.path = l.path := by
  constructor
  · intro h l mem
    rw [← h] at mem
    rcases mem_of_mem_insertMany mem with mem | mem
    · simp [empty] at mem
    · obtain ⟨l', -, rfl⟩ := List.mem_map.1 mem
      simp [Link.normalized]
  · intro h
    rw [map_eq_self_iff.2 fun l mem => l.normalized_eq_self_iff.2 (h l mem), insertMany_toList]

/-! ## Descriptions -/

/-- Whether a description is in normal form: all texts are trimmed, no name is empty, all arguments
    have values, and where the project is stored is not set. -/
structure Description.IsNormal (d : Description) : Prop where
  name : ∀ name, d.name? = some name → trim name = name ∧ name ≠ ""
  comment : trim d.comment = d.comment
  location : d.location? = none
  projects : ∀ project ∈ d.projects, trim project = project
  natures : ∀ nature ∈ d.natures, trim nature = nature
  commands : ∀ c ∈ d.buildSpec, trim c.name = c.name ∧ ∀ e ∈ c.arguments.entries, normalEntry e = e
  links : ∀ l ∈ d.links.toList, trim l.path = l.path
  filters : ∀ f ∈ d.filters, f.normalized = f

/-- A description is in normal form exactly if it is its own normal form. -/
theorem Description.isNormal_iff (d : Description) : d.IsNormal ↔ d.normalized = d := by
  constructor
  · intro h
    have commands : ∀ c ∈ d.buildSpec, c.normalized = c := fun c mem =>
      c.normalized_eq_self_iff.2 (h.commands c mem)
    rw [normalized, (filter_trim_eq_self_iff _).2 h.name, h.comment, map_eq_self_iff.2 h.projects,
      map_eq_self_iff.2 h.natures, map_eq_self_iff.2 commands, map_eq_self_iff.2 h.filters,
      (Links.insertMany_normalized_eq_self_iff _).2 h.links, ← h.location]
  · intro h
    -- Equal descriptions agree in each field.
    exact
      { name := (filter_trim_eq_self_iff _).1 (congrArg Description.name? h)
        comment := congrArg Description.comment h
        location := (congrArg Description.location? h).symm
        projects := map_eq_self_iff.1 (congrArg Description.projects h)
        natures := map_eq_self_iff.1 (congrArg Description.natures h)
        commands := fun c mem => c.normalized_eq_self_iff.1
          (map_eq_self_iff.1 (congrArg Description.buildSpec h) c mem)
        links := (Links.insertMany_normalized_eq_self_iff _).1 (congrArg Description.links h)
        filters := map_eq_self_iff.1 (congrArg Description.filters h) }

end ProjectFile
