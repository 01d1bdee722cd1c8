import ProjectFile.Proofs.Location.Segments
import ProjectFile.Proofs.Text.Trim

/-!
# Which local paths have a URI

Whether a path has a URI is decided on its canonical spelling, but it can be said of the path as it
is given: what counts is only how it starts behind white space.  Nothing else in it can make it
malformed, and no character of it ends up outside of the path of the URI.

## Key results

- `LocalPath.ofLocalPath_eq_empty_iff`, `LocalPath.ofLocalPath_eq_relative_iff`: the paths that have
  no URI
- `LocalPath.exists_ofLocalPath`: any other path has the URI of some segments
- `LocalPath.ofLocalPath_outcome`: these together, for paths in each of their spellings
-/

namespace ProjectFile.LocalPath

open ProjectFile.Text

/-- A path without anything but white space is empty. -/
theorem ofLocalPath_eq_empty_iff {p : String} :
    Uri.ofLocalPath p = .error .empty ↔ IsWhite p := by
  have empty : normalize (trimChars p.toList) = [] ↔ IsWhite p := by
    rw [normalize_eq_nil_iff, ← toList_trim, String.toList_eq_nil_iff, trim_eq_empty_iff]
  rw [← empty]
  unfold Uri.ofLocalPath
  dsimp only
  split
  · exact iff_of_true rfl ‹_›
  · split <;> exact iff_of_false (by simp) ‹_›

/-- An absolute path has the URI of the segments after its root. -/
theorem exists_ofLocalPath {p : String} (h : IsAbsolute (trim p).toList) :
    ∃ s, rooted? (normalize (trimChars p.toList)) = some ('/' :: s) ∧
      Uri.ofLocalPath p = .ok (Uri.ofSegments (segments s)) := by
  rw [toList_trim] at h
  obtain ⟨rooted, found⟩ := Option.isSome_iff_exists.1 (isSome_rooted?_normalize.2 h)
  obtain ⟨s, rfl, -⟩ := rooted?_eq_some found
  exact ⟨s, found, ofLocalPath_eq_ok_iff.2 ⟨s, found, rfl⟩⟩

/-- A path that is not absolute, but not empty either, is relative, and reported as it is given. -/
private theorem ofLocalPath_of_relative {p : String} (nonempty : ¬ IsWhite p)
    (h : ¬ IsAbsolute (trim p).toList) : Uri.ofLocalPath p = .error (.relative p) := by
  rw [toList_trim, ← isSome_rooted?_normalize, Option.not_isSome_iff_eq_none] at h
  have something : normalize (trimChars p.toList) ≠ [] := by
    rwa [ne_eq, normalize_eq_nil_iff, ← toList_trim, String.toList_eq_nil_iff, trim_eq_empty_iff]
  unfold Uri.ofLocalPath
  simp only [if_neg something, h]

/-- A path is refused as a relative one, and reported as it is given, exactly if it is not white
    all over and not absolute. -/
theorem ofLocalPath_eq_relative_iff {p q : String} :
    Uri.ofLocalPath p = .error (.relative q) ↔
      q = p ∧ ¬ IsWhite p ∧ ¬ IsAbsolute (trim p).toList := by
  constructor
  · intro h
    -- In the two other cases the result is another one.
    have nonempty : ¬ IsWhite p := by
      intro white
      rw [ofLocalPath_eq_empty_iff.2 white] at h
      cases h
    have relative : ¬ IsAbsolute (trim p).toList := by
      intro absolute
      obtain ⟨s, -, found⟩ := exists_ofLocalPath absolute
      rw [found] at h
      cases h
    rw [ofLocalPath_of_relative nonempty relative] at h
    cases h
    exact ⟨rfl, nonempty, relative⟩
  · rintro ⟨rfl, nonempty, relative⟩
    exact ofLocalPath_of_relative nonempty relative

/-- No local path is malformed. -/
private theorem ofLocalPath_ne_malformed (p text : String) (cause : UriFault) :
    Uri.ofLocalPath p ≠ .error (.malformed text cause) := by
  by_cases absolute : IsAbsolute (trim p).toList
  · obtain ⟨s, -, found⟩ := exists_ofLocalPath absolute
    simp [found]
  · by_cases white : IsWhite p
    · simp [ofLocalPath_eq_empty_iff.2 white]
    · simp [ofLocalPath_of_relative white absolute]

/-- The path of the URI of some segments starts with a separator. -/
private theorem head?_render_ofSegments {segments : List (List Char)} (h : segments ≠ []) :
    (Uri.ofSegments segments).path.render.toList.head? = some '/' := by
  obtain ⟨segment, others, rfl⟩ := List.exists_cons_of_ne_nil h
  rw [toList_render_ofSegments]
  rfl

/-- What becomes of a path is decided on its canonical spelling. -/
theorem ofLocalPath_of_normalize_eq {p q : String}
    (h : normalize (trimChars q.toList) = normalize (trimChars p.toList)) {u : Uri}
    (found : Uri.ofLocalPath p = .ok u) : Uri.ofLocalPath q = .ok u := by
  rw [ofLocalPath_eq_ok_iff] at found ⊢
  rwa [h]

/-- Paths that differ only in their separators have the same URI, or are both relative. -/
private theorem ofLocalPath_of_restyled {p q : String} (trimmed : trim p = p) (nonempty : p ≠ "")
    (h : Restyled p.toList q.toList) :
    (∃ u, Uri.ofLocalPath p = .ok u ∧ Uri.ofLocalPath q = .ok u) ∨
      (Uri.ofLocalPath p = .error (.relative p) ∧ Uri.ofLocalPath q = .error (.relative q)) := by
  have bare : trimChars p.toList = p.toList := by rw [← toList_trim, trimmed]
  obtain ⟨nonempty', bare', spelling⟩ := h.normalize_eq (by simpa using nonempty) bare
  have trimmed' : trim q = q := by rw [← String.toList_inj, toList_trim, bare']
  -- The start of the canonical spelling decides, and both paths have the same one.
  by_cases absolute : IsAbsolute (trim p).toList
  · obtain ⟨s, -, found⟩ := exists_ofLocalPath absolute
    exact .inl ⟨_, found, ofLocalPath_of_normalize_eq (by rw [bare, bare', spelling]) found⟩
  · have relative : ¬ IsAbsolute (trim q).toList := by
      rwa [toList_trim, ← isSome_rooted?_normalize, bare', spelling, ← bare,
        isSome_rooted?_normalize, ← toList_trim]
    right
    refine ⟨ofLocalPath_of_relative ?_ absolute, ofLocalPath_of_relative ?_ relative⟩
    · rwa [← trim_eq_empty_iff, trimmed]
    · rw [← trim_eq_empty_iff, trimmed']
      simpa using nonempty'

/-- A path is empty, relative or absolute, whatever else is in it.  An absolute one has a URI with
    nothing but a path, which leads back to a local path; and the kind and number of its separators
    do not matter. -/
theorem ofLocalPath_outcome (p : String) :
    (Uri.ofLocalPath p = .error .empty ↔ IsWhite p) ∧
    (∀ q, Uri.ofLocalPath p = .error (.relative q) ↔
      q = p ∧ ¬ IsWhite p ∧ ¬ IsAbsolute (trim p).toList) ∧
    (∀ text cause, Uri.ofLocalPath p ≠ .error (.malformed text cause)) ∧
    (IsAbsolute (trim p).toList → ∃ u, Uri.ofLocalPath p = .ok u ∧ u.scheme = "file" ∧
      u.hostless = true ∧ u.query = none ∧ u.fragment = none ∧
      u.path.render.toList.head? = some '/' ∧ u.localPath?.isSome = true) ∧
    (trim p = p → p ≠ "" → ∀ q : String, Restyled p.toList q.toList →
      (∃ u, Uri.ofLocalPath p = .ok u ∧ Uri.ofLocalPath q = .ok u) ∨
      (Uri.ofLocalPath p = .error (.relative p) ∧ Uri.ofLocalPath q = .error (.relative q))) := by
  refine ⟨ofLocalPath_eq_empty_iff, fun q => ofLocalPath_eq_relative_iff,
    ofLocalPath_ne_malformed p, fun absolute => ?_, fun trimmed nonempty q =>
      ofLocalPath_of_restyled trimmed nonempty⟩
  -- The URI of an absolute path is that of its segments, of which all can be said.
  obtain ⟨s, -, found⟩ := exists_ofLocalPath absolute
  refine ⟨_, found, rfl, rfl, rfl, rfl, head?_render_ofSegments (segments_ne_nil s), ?_⟩
  rw [localPath?_ofSegments]
  rfl

/-- A drive with separators of either kind, repeated and at the end, names the same location. -/
theorem ofLocalPath_outcome_drive :
    trim "C:\\a" = "C:\\a" ∧ "C:\\a" ≠ "" ∧ IsAbsolute (trim "C:\\a").toList ∧
      Restyled "C:\\a".toList "C://a/".toList ∧
      (∃ u, Uri.ofLocalPath "C:\\a" = .ok u ∧ u.localPath?.isSome = true) ∧
      ∃ u, Uri.ofLocalPath "C:\\a" = .ok u ∧ Uri.ofLocalPath "C://a/" = .ok u := by
  have trimmed : trim "C:\\a" = "C:\\a" := by decide
  have absolute : IsAbsolute (trim "C:\\a").toList := by
    rw [trimmed]
    exact .onDrive (by decide) (.inr rfl)
  -- One kind of separator for the other, then two for one, then one more at the end.
  have swapped : Restyle "C:\\a".toList "C:/a".toList :=
    .swap ['C', ':'] ['a'] (.inr rfl) (.inl rfl)
  have doubled : Restyle "C:/a".toList "C://a".toList := .double ['C', ':'] ['a'] (.inl rfl)
  have closed : Restyle "C://a".toList "C://a/".toList := .close _ (.inl rfl)
  have restyled : Restyled "C:\\a".toList "C://a/".toList :=
    ((Relation.ReflTransGen.single swapped).tail doubled).tail closed
  obtain ⟨-, -, -, accepted, style⟩ := ofLocalPath_outcome "C:\\a"
  obtain ⟨u, found, -, -, -, -, -, isLocal⟩ := accepted absolute
  refine ⟨trimmed, by decide, absolute, restyled, ⟨u, found, isLocal⟩, ?_⟩
  rcases style trimmed (by decide) "C://a/" restyled with same | ⟨relative, -⟩
  · exact same
  · rw [found] at relative
    cases relative

end ProjectFile.LocalPath
