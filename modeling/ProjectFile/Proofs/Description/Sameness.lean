import Mathlib.Data.List.Forall2
import Mathlib.Data.List.Nodup
import Mathlib.Data.List.Perm.Subperm
import ProjectFile.Description.Basic

/-!
# Descriptions that say the same

Two descriptions say the same if they agree on everything but the order of the arguments of their
commands.  Arguments that are the same are the same entries in some order, since no key occurs
twice; so the order of the keys is all that such descriptions can differ in.

## Key results

- `Arguments.perm_of_same`: arguments that are the same have the same entries
- `Arguments.eq_of_same`: with their keys in the same order they are equal
- `Description.eq_of_same`: so are descriptions that say the same
-/

namespace ProjectFile

namespace Arguments

variable {a b : Arguments}

/-- Arguments that are the same have equally many entries. -/
theorem length_of_same (h : a.same b = true) : a.entries.length = b.entries.length := by
  simp only [same, Bool.and_eq_true, beq_iff_eq] at h
  exact h.1

/-- What the one have under a key, the others have too. -/
private theorem get?_of_same (h : a.same b = true) {e : String × Option String}
    (mem : e ∈ a.entries) : b.get? e.1 = some e.2 := by
  simp only [same, Bool.and_eq_true, beq_iff_eq, List.all_eq_true] at h
  exact h.2 e mem

/-- What is found under a key is an entry. -/
private theorem mem_of_get? {key : String} {value : Option String} (h : b.get? key = some value) :
    (key, value) ∈ b.entries := by
  obtain ⟨before, after, eq, -⟩ := List.lookup_eq_some_iff.1 h
  rw [eq]
  simp

/-- Arguments that are the same have the same entries, in some order. -/
theorem perm_of_same (h : a.same b = true) : a.entries.Perm b.entries := by
  -- The entries of one are among those of the other, none occurs twice, and there are as many.
  have among : a.entries ⊆ b.entries := fun e mem => mem_of_get? (get?_of_same h mem)
  have nodup : a.entries.Nodup := .of_map Prod.fst a.nodup
  have asMany := Nat.le_of_eq (length_of_same h).symm
  exact (List.subperm_of_subset nodup among).perm_of_length_le asMany

/-- Entries among others with the same keys, none of them twice, are these others. -/
private theorem entries_eq_of_keys {entries entries' : List (String × Option String)}
    (keys : entries.map Prod.fst = entries'.map Prod.fst)
    (nodup : (entries'.map Prod.fst).Nodup) (among : entries ⊆ entries') :
    entries = entries' := by
  -- Entries in the same place have the same key, and no other entry has that key.
  refine List.ext_getElem (by simpa using congrArg List.length keys) fun i h h' => ?_
  have sameKey : (entries[i]).1 = (entries'[i]).1 := by
    have := congrArg (·[i]?) keys
    simpa [h, h'] using this
  exact List.inj_on_of_nodup_map nodup (among (List.getElem_mem h)) (List.getElem_mem h') sameKey

/-- Arguments that are the same, with their keys in the same order, are equal. -/
theorem eq_of_same (h : a.same b = true) (keys : a.keys = b.keys) : a = b := by
  have entries := entries_eq_of_keys keys b.nodup (perm_of_same h).subset
  cases a
  cases b
  simpa using entries

end Arguments

namespace Description

/-- Commands that are the same have the same names and arguments that are the same, one by one. -/
private theorem forall₂_of_sameCommands {cs cs' : List BuildCommand}
    (h : sameCommands cs cs' = true) :
    List.Forall₂ (fun c c' => c.name = c'.name ∧ c.arguments.same c'.arguments = true) cs cs' := by
  induction cs generalizing cs' with
  | nil =>
    cases cs' with
    | nil => exact .nil
    | cons c' cs' => simp [sameCommands] at h
  | cons c cs ih =>
    cases cs' with
    | nil => simp [sameCommands] at h
    | cons c' cs' =>
      simp only [sameCommands, BuildCommand.same, Bool.and_eq_true, beq_iff_eq] at h
      exact .cons h.1 (ih h.2)

/-- Commands that are the same are equal if their arguments have the same order. -/
private theorem commands_eq_of_keys {cs cs' : List BuildCommand}
    (h : List.Forall₂ (fun c c' => c.name = c'.name ∧ c.arguments.same c'.arguments = true) cs cs')
    (keys : cs.map (·.arguments.keys) = cs'.map (·.arguments.keys)) : cs = cs' := by
  induction h with
  | nil => rfl
  | @cons c c' cs cs' here _ ih =>
    rw [List.map_cons, List.map_cons, List.cons.injEq] at keys
    have command : c = c' := by
      cases c
      cases c'
      rw [BuildCommand.mk.injEq]
      exact ⟨here.1, Arguments.eq_of_same here.2 keys.1⟩
    rw [command, ih keys.2]

variable {a b : Description}

/-- Descriptions that say the same have build specifications that do, command by command. -/
theorem forall₂_of_same (h : a.same b = true) :
    List.Forall₂ (fun c c' => c.name = c'.name ∧ c.arguments.same c'.arguments = true)
      a.buildSpec b.buildSpec := by
  simp only [same, Bool.and_eq_true] at h
  exact forall₂_of_sameCommands h.1.1.2

/-- Descriptions that say the same differ in their commands only. -/
theorem eq_with_buildSpec_of_same (h : a.same b = true) :
    b = { a with buildSpec := b.buildSpec } := by
  simp only [same, Bool.and_eq_true, beq_iff_eq] at h
  obtain ⟨⟨⟨⟨⟨⟨⟨name, comment⟩, location⟩, projects⟩, natures⟩, -⟩, links⟩, filters⟩ := h
  cases a
  cases b
  simp_all

/-- Descriptions that say the same, with the arguments of each command in the same order, are
    equal. -/
theorem eq_of_same (h : a.same b = true)
    (keys : a.buildSpec.map (·.arguments.keys) = b.buildSpec.map (·.arguments.keys)) : a = b := by
  rw [eq_with_buildSpec_of_same h, ← commands_eq_of_keys (forall₂_of_same h) keys]

end Description

end ProjectFile
