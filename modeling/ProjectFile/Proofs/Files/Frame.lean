import Mathlib.Tactic.ByContra
import ProjectFile.Files

/-!
# What writing a file changes

A file that is created is put at one path, and all other paths have what they had.  Where names lead
depends only on which paths are directories, so a new content of a file does not change where any
path leads.

## Key results

- `FileSystem.get?_put`: what is at each path after an entry is put at one
- `FileSystem.resolve_eq`, `FileSystem.resolveNew_eq`: where paths lead in a file system of the same
  shape
- `FileSystem.createFile_of_creates`, `FileSystem.createFile_of_not_creates`: what creating a file
  does
-/

namespace ProjectFile

/-- Whether an entry is a directory. -/
def FileEntry.isDirectory : FileEntry → Bool
  | .file _ => false
  | .directory => true

namespace FileSystem

variable {fs fs' : FileSystem} {path : String} {target : List String} {bytes : ByteArray}

/-! ## Entries -/

/-- Filtering out the entry at one path changes nothing at another. -/
private theorem lookup_filter_ne (entries : List (List String × FileEntry)) {p : List String}
    (other : p ≠ target) : (entries.filter (·.1 != target)).lookup p = entries.lookup p := by
  induction entries with
  | nil => rfl
  | cons entry rest ih =>
    obtain ⟨place, e⟩ := entry
    by_cases here : place = target
    · -- The entry is filtered out, and is not the one that is looked up.
      rw [List.filter_cons_of_neg (by simpa using here), ih, List.lookup_cons]
      have differs : (p == place) = false := by simpa [here] using other
      rw [differs]
    · rw [List.filter_cons_of_pos (by simpa using here), List.lookup_cons, List.lookup_cons, ih]

/-- After an entry is put at a path, that path has the entry and all others have what they had. -/
theorem get?_put (below : target ≠ []) (e : FileEntry) (p : List String) :
    (fs.put target e).get? p = if p = target then some e else fs.get? p := by
  -- The root is no entry, so nothing can be put there.
  by_cases root : p = []
  · rw [get?, get?, if_pos root, if_pos root, if_neg (root ▸ Ne.symm below)]
  · rw [get?, get?, if_neg root, if_neg root, put, List.lookup_cons]
    split
    · rename_i same
      rw [if_pos (by simpa using same)]
    · rename_i other
      have other : p ≠ target := by simpa using other
      rw [lookup_filter_ne _ other, if_neg other]

/-- A path has the entry that was put there. -/
theorem get?_put_self (below : target ≠ []) (e : FileEntry) :
    (fs.put target e).get? target = some e := by
  rw [get?_put below, if_pos rfl]

/-- All other paths have what they had. -/
theorem get?_put_of_ne (below : target ≠ []) (e : FileEntry) {p : List String}
    (other : p ≠ target) : (fs.put target e).get? p = fs.get? p := by
  rw [get?_put below, if_neg other]

/-- Putting the same entry once more changes nothing. -/
theorem put_put (fs : FileSystem) (target : List String) (e : FileEntry) :
    (fs.put target e).put target e = fs.put target e := by
  simp [put]

/-- Only the root is there without an entry, and it is a directory. -/
theorem ne_nil_of_not_directory (h : fs.get? target ≠ some .directory) : target ≠ [] := by
  rintro rfl
  exact h rfl

/-- A file is not at the root. -/
private theorem ne_nil_of_file (there : fs.get? target = some (.file bytes)) : target ≠ [] := by
  have file : fs.get? target ≠ some .directory := by simp [there]
  exact ne_nil_of_not_directory file

/-! ## Shapes -/

/-- Whether two file systems have directories at the same paths, files at the same paths, and the
    same faults. -/
structure SameShape (fs fs' : FileSystem) : Prop where
  working : fs'.working = fs.working
  faults : fs'.faults = fs.faults
  kinds : ∀ p, (fs'.get? p).map FileEntry.isDirectory = (fs.get? p).map FileEntry.isDirectory

/-- A file that gets another content leaves the shape. -/
private theorem sameShape_put {old : ByteArray} (there : fs.get? target = some (.file old))
    (bytes : ByteArray) : fs.SameShape (fs.put target (.file bytes)) := by
  have below := ne_nil_of_file there
  refine ⟨rfl, rfl, fun p => ?_⟩
  by_cases here : p = target
  · rw [here, get?_put_self below, there]
    rfl
  · rw [get?_put_of_ne below _ here]

/-- Names lead to the same place in file systems of the same shape. -/
private theorem walk_eq (same : fs.SameShape fs') (here : List String) (names : List String) :
    fs'.walk here names = fs.walk here names := by
  induction names generalizing here with
  | nil => rw [walk, walk]
  | cons name rest ih =>
    -- Each step looks at the kind of the entry only.
    have kind := same.kinds here
    rw [walk, walk]
    cases now : fs'.get? here with
    | none =>
      rw [now, Option.map_none, eq_comm, Option.map_eq_none_iff] at kind
      rw [kind]
    | some e =>
      rw [now, Option.map_some, eq_comm, Option.map_eq_some_iff] at kind
      obtain ⟨e', before, alike⟩ := kind
      rw [before]
      cases e <;> cases e' <;> simp_all [FileEntry.isDirectory]

/-- A path leads to the same place in file systems of the same shape. -/
theorem resolve_eq (same : fs.SameShape fs') (path : String) :
    fs'.resolve path = fs.resolve path := by
  simp only [resolve, start, same.working, walk_eq same]

/-- A path for a new file leads to the same place in file systems of the same shape. -/
theorem resolveNew_eq (same : fs.SameShape fs') (path : String) :
    fs'.resolveNew path = fs.resolveNew path := by
  simp only [resolveNew, start, same.working, walk_eq same]

/-! ## Opening -/

/-- A path that leads nowhere cannot be opened. -/
private theorem openFile_of_resolve_error {fault : FileFault} (h : fs.resolve path = .error fault) :
    fs.openFile path = .error fault := by
  rw [openFile, h]
  rfl

/-- What a path leads to is opened. -/
private theorem openFile_of_resolve (h : fs.resolve path = .ok target) :
    fs.openFile path = fs.openAt target := by
  rw [openFile, h]
  rfl

/-- A path whose source has a text leads to a file that can be opened and read. -/
theorem exists_file_of_text {source : Source} {text : String} (h : fs.openFile path = .ok source)
    (read : source.text = .ok text) :
    ∃ target bytes, fs.resolve path = .ok target ∧ fs.get? target = some (.file bytes) ∧
      fs.faults.opening target = none ∧ fs.faults.reading target = none := by
  cases resolved : fs.resolve path with
  | error fault =>
    rw [openFile_of_resolve_error resolved] at h
    cases h
  | ok target =>
    rw [openFile_of_resolve resolved, openAt] at h
    split at h
    · cases h
    · cases h
    · rename_i bytes there opens
      cases h
      refine ⟨target, bytes, rfl, there, opens, ?_⟩
      cases reads : fs.faults.reading target with
      | none => rfl
      | some reason =>
        -- A source that fails gives no text.
        rw [Source.text, reads] at read
        cases read
    · -- A directory can be opened, but there is no text in it.
      cases h
      cases read

/-- A file with a new content is opened as that, wherever its path stands. -/
theorem openFile_put {old : ByteArray} (leads : fs.resolve path = .ok target)
    (there : fs.get? target = some (.file old)) (opens : fs.faults.opening target = none)
    (reads : fs.faults.reading target = none) (bytes : ByteArray) :
    (fs.put target (.file bytes)).openFile path = .ok { bytes } := by
  have below := ne_nil_of_file there
  have again := (resolve_eq (sameShape_put there bytes) path).trans leads
  rw [openFile_of_resolve again, openAt, get?_put_self below, show (fs.put target _).faults =
    fs.faults from rfl, opens, reads]

/-- All other files are opened as before. -/
theorem openFile_put_of_ne {old : ByteArray} (there : fs.get? target = some (.file old))
    (bytes : ByteArray) (other : fs.resolve path ≠ .ok target) :
    (fs.put target (.file bytes)).openFile path = fs.openFile path := by
  have below := ne_nil_of_file there
  have resolved := resolve_eq (sameShape_put there bytes) path
  cases h : fs.resolve path with
  | error fault =>
    rw [openFile_of_resolve_error h, openFile_of_resolve_error (resolved.trans h)]
  | ok place =>
    -- The path leads to another place, whose entry is as it was.
    have apart : place ≠ target := fun here => other (here ▸ h)
    rw [openFile_of_resolve h, openFile_of_resolve (resolved.trans h), openAt, openAt,
      get?_put_of_ne below _ apart]
    rfl

/-! ## Creating -/

/-- Whether a path is that of a file that can be created, and where that is. -/
structure Creates (fs : FileSystem) (path : String) (target : List String) : Prop where
  leads : fs.resolveNew path = .ok target
  file : fs.get? target ≠ some .directory
  creates : fs.faults.creating target = none

/-- A file is created at the place where its path leads. -/
private theorem createFile_of_leads (leads : fs.resolveNew path = .ok target) (bytes : ByteArray) :
    fs.createFile path bytes = fs.createAt target bytes := by
  rw [createFile, leads]
  rfl

/-- Creating a file puts it in its place. -/
theorem createFile_of_creates (h : fs.Creates path target) (bytes : ByteArray) :
    fs.createFile path bytes = .ok (fs.put target (.file bytes)) := by
  rw [createFile_of_leads h.leads, createAt, h.creates]
  split
  · rename_i directory
    exact absurd directory h.file
  · contradiction
  · rfl

/-- A file that cannot be created gives a fault. -/
theorem createFile_of_not_creates (h : ∀ target, ¬ fs.Creates path target) (bytes : ByteArray) :
    ∃ fault, fs.createFile path bytes = .error fault := by
  cases leads : fs.resolveNew path with
  | error fault =>
    rw [createFile, leads]
    exact ⟨fault, rfl⟩
  | ok target =>
    rw [createFile_of_leads leads, createAt]
    -- A directory in the place and a fault of the disk are all that can be in the way.
    split
    · exact ⟨.isADirectory, rfl⟩
    · rename_i fault _ _
      exact ⟨fault, rfl⟩
    · rename_i creates file
      exact absurd ⟨leads, file, creates⟩ (h target)

/-- A file that is there and was created can be created again. -/
theorem Creates.put {old : ByteArray} (h : fs.Creates path target)
    (there : fs.get? target = some (.file old)) (bytes : ByteArray) :
    (fs.put target (.file bytes)).Creates path target where
  leads := (resolveNew_eq (sameShape_put there bytes) path).trans h.leads
  file := by simp [get?_put_self (ne_nil_of_not_directory h.file)]
  creates := h.creates

end FileSystem

end ProjectFile
