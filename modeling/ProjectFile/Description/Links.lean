import ProjectFile.Uri.Basic

/-! # Linked resources

A project links resources that are stored elsewhere.  A description keeps its links by path, one
for each path, in the order of the paths.

`Links.get?_insert` and `Links.get?_erase` say what a look-up finds after a change. -/

namespace ProjectFile

/-- What a link stands for. -/
inductive ResourceType where
  | file
  | folder
deriving DecidableEq, Repr

namespace ResourceType

/-- The number that is written for a type. -/
def code : ResourceType → Nat
  | .file => 1
  | .folder => 2

/-- The type with a number. -/
def ofCode? : Nat → Option ResourceType
  | 1 => some .file
  | 2 => some .folder
  | _ => none

/-- The name of a type. -/
def name : ResourceType → String
  | .file => "file"
  | .folder => "folder"

/-- The number of a type leads back to it. -/
@[simp] theorem ofCode?_code (t : ResourceType) : ofCode? t.code = some t := by
  cases t <;> rfl

end ResourceType

/-- A resource that is linked in at a path. -/
structure Link where
  path : String
  type? : Option ResourceType := none
  location : Uri
deriving DecidableEq, Repr

/-- The list of links with one more, in the place of its path. -/
def putLink (link : Link) : List Link → List Link
  | [] => [link]
  | l :: rest =>
    if link.path < l.path then link :: l :: rest
    else if link.path = l.path then link :: rest
    else l :: putLink link rest

/-- Putting a link adds no other one. -/
theorem mem_of_mem_putLink {link x : Link} {ls : List Link} (h : x ∈ putLink link ls) :
    x = link ∨ x ∈ ls := by
  induction ls with
  | nil => simpa [putLink] using h
  | cons l rest ih =>
    simp only [putLink] at h
    -- The link is put in front, over the first one, or further back.
    split at h
    · simpa using h
    · split at h
      · rw [List.mem_cons] at h
        exact h.imp_right (List.mem_cons_of_mem l)
      · rw [List.mem_cons] at h
        rcases h with rfl | h
        · exact .inr (by simp)
        · exact (ih h).imp_right (List.mem_cons_of_mem l)

/-- The order of the links of a description. -/
def Link.Before (a b : Link) : Prop :=
  a.path < b.path

/-- A path that is neither less than another one nor the same is greater. -/
private theorem path_lt_of_not {a b : String} (h : ¬ a < b) (h' : ¬ a = b) : b < a := by
  by_cases hlt : b < a
  · exact hlt
  · exact absurd (String.le_antisymm (String.not_lt.1 hlt) (String.not_lt.1 h)) h'

/-- Links that are sorted stay so when one is put among them. -/
private theorem pairwise_putLink (link : Link) {ls : List Link} (h : ls.Pairwise Link.Before) :
    (putLink link ls).Pairwise Link.Before := by
  induction ls with
  | nil => simp [putLink]
  | cons l rest ih =>
    rw [List.pairwise_cons] at h
    simp only [putLink]
    split
    · -- The new link comes first, before all that are there.
      rename_i first
      refine List.pairwise_cons.2 ⟨?_, List.pairwise_cons.2 h⟩
      intro x hx
      rw [List.mem_cons] at hx
      rcases hx with rfl | hx
      · exact first
      · exact String.lt_trans first (h.1 x hx)
    · rename_i notFirst
      split
      · -- The new link takes the place of the first one, whose path it has.
        rename_i same
        refine List.pairwise_cons.2 ⟨?_, h.2⟩
        intro x hx
        have := h.1 x hx
        rw [Link.Before, ← same] at this
        exact this
      · -- The new link comes further back.
        rename_i other
        refine List.pairwise_cons.2 ⟨?_, ih h.2⟩
        intro x hx
        rcases mem_of_mem_putLink hx with rfl | hx
        · exact path_lt_of_not notFirst other
        · exact h.1 x hx

/-- The links of a description, in the order of their paths.  No path occurs twice. -/
structure Links where
  toList : List Link := []
  sorted : toList.Pairwise Link.Before := by simp
deriving DecidableEq

namespace Links

/-- No links. -/
def empty : Links := {}

/-- Whether there are no links. -/
def isEmpty (ls : Links) : Bool :=
  ls.toList.isEmpty

/-- The number of links. -/
def size (ls : Links) : Nat :=
  ls.toList.length

/-- The link at a path. -/
def get? (ls : Links) (path : String) : Option Link :=
  ls.toList.find? (·.path == path)

/-- Sets a link, in the place of the link at its path if there is one. -/
def insert (ls : Links) (link : Link) : Links where
  toList := putLink link ls.toList
  sorted := pairwise_putLink link ls.sorted

/-- Removes the link at a path. -/
def erase (ls : Links) (path : String) : Links where
  toList := ls.toList.filter (·.path != path)
  sorted := ls.sorted.filter _

/-- The links with those of a list set one after the other. -/
def insertMany (ls : Links) (links : List Link) : Links :=
  links.foldl insert ls

/-- The link at a path has that path. -/
theorem path_of_get? {ls : Links} {path : String} {link : Link} (h : ls.get? path = some link) :
    link.path = path := by
  have := List.find?_some h
  simpa using this

/-- Putting a link changes what is found at its path only. -/
private theorem find?_putLink (link : Link) (ls : List Link) (h : ls.Pairwise Link.Before)
    (path : String) :
    (putLink link ls).find? (·.path == path) =
      if path = link.path then some link else ls.find? (·.path == path) := by
  induction ls with
  | nil =>
    by_cases hp : path = link.path
    · simp [putLink, hp]
    · simp [putLink, hp, Ne.symm hp]
  | cons l rest ih =>
    rw [List.pairwise_cons] at h
    simp only [putLink]
    split
    · by_cases hp : path = link.path
      · simp [hp]
      · simp [List.find?_cons, hp, Ne.symm hp]
    · split
      · rename_i same
        by_cases hp : path = link.path
        · simp [hp]
        · have hl : ¬ l.path = path := fun e => hp (e ▸ same.symm)
          simp [hp, Ne.symm hp, hl]
      · -- The first link stays, and the new one is put behind it.
        rename_i other
        by_cases hl : l.path = path
        · have hp : ¬ path = link.path := fun e => other (e ▸ hl.symm)
          simp [hl, hp]
        · simp [hl, ih h.2]

/-- What is found once a link is set. -/
theorem get?_insert (ls : Links) (link : Link) (path : String) :
    (ls.insert link).get? path = if path = link.path then some link else ls.get? path :=
  find?_putLink link ls.toList ls.sorted path

/-- What is found once a link is removed. -/
theorem get?_erase (ls : Links) (path p : String) :
    (ls.erase path).get? p = if p = path then none else ls.get? p := by
  unfold get? erase
  rw [List.find?_filter]
  by_cases h : p = path
  · subst h
    simp
  · simp only [h, if_false]
    congr 1
    funext l
    by_cases hl : l.path = p
    · simp [hl, h]
    · simp [hl]

end Links

end ProjectFile
