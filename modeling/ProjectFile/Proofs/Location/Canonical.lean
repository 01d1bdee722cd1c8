import ProjectFile.Proofs.Location.Pieces

/-!
# What the canonical spelling keeps

A local path says two things: whether it starts with a separator, and which names stand along it.
Its canonical spelling is made of just these two: the names as they are, with one separator between
them, and one before them if the path starts with any.  So it says the same as the path, and paths
that say the same are spelled the same.

## Key results

- `LocalPath.normalize_eq_canonical`: the canonical spelling is made from the start and the names
- `LocalPath.names_canonical`, `LocalPath.startsWithSeparator_canonical`: both can be read back
- `LocalPath.normalize_canonical`: what the canonical spelling is, and when two paths share it
-/

namespace ProjectFile.LocalPath

/-- Whether a path starts with a separator of either kind. -/
def startsWithSeparator (s : List Char) : Bool :=
  s.head?.any (IsSeparator ·)

/-- The names in a path: what stands between its separators of either kind, where anything does. -/
def names (s : List Char) : List (List Char) :=
  (s.splitOnP (IsSeparator ·)).filter (· ≠ [])

/-- Whether a text can be a name. -/
def IsName (s : List Char) : Prop :=
  s ≠ [] ∧ ∀ c ∈ s, ¬ IsSeparator c

/-- The one way to write names: one separator between any two, and one before them if the path is
    `rooted`. -/
def canonical (rooted : Bool) (ns : List (List Char)) : List Char :=
  (if rooted then ['/'] else []) ++ ['/'].intercalate ns

/-! ## Names -/

/-- The names are the pieces of the path that are not empty. -/
private theorem names_eq_filter_pieces (s : List Char) :
    names s = (Uri.pieces .file s).filter (· ≠ []) := by
  have splits := pieces_eq_splitOnP (s := s) (p := (IsSeparator ·)) (by simp)
  rw [names, splits]

/-- Where all separators are of one kind, it does not matter that there is another. -/
private theorem names_eq_filter_splitOn {s : List Char} (h : '\\' ∉ s) :
    names s = (s.splitOn '/').filter (· ≠ []) := by
  rw [names_eq_filter_pieces, pieces_eq_splitOn h]

/-- Without backslashes, a path starts with a separator if it starts with a slash. -/
private theorem startsWithSeparator_iff_head? {s : List Char} (h : '\\' ∉ s) :
    startsWithSeparator s = true ↔ s.head? = some '/' := by
  cases s with
  | nil => simp [startsWithSeparator]
  | cons c s =>
    have noBackslash : c ≠ '\\' := fun same => h (same ▸ List.mem_cons_self)
    simp [startsWithSeparator, IsSeparator, noBackslash]

/-- The names in a path are names. -/
private theorem isName_of_mem_names {s name : List Char} (h : name ∈ names s) : IsName name := by
  rw [names_eq_filter_pieces, List.mem_filter] at h
  exact ⟨by simpa using h.2, fun c hc => (mem_of_mem_pieces h.1 c hc).2⟩

/-- A separator parts the names before it from those behind it. -/
private theorem names_append_cons {c : Char} (h : IsSeparator c) (s t : List Char) :
    names (s ++ c :: t) = names s ++ names t := by
  rw [names, List.splitOnP_append_cons s t (by simpa using h), List.filter_append]
  rfl

/-- A separator at the start is no part of a name. -/
private theorem names_cons_of_isSeparator {c : Char} (h : IsSeparator c) (s : List Char) :
    names (c :: s) = names s :=
  names_append_cons h [] s

/-- A name alone is its only name. -/
private theorem names_of_isName {s : List Char} (h : IsName s) : names s = [s] := by
  rw [names, List.splitOnP_eq_singleton (by simpa using h.2)]
  simp [h.1]

/-- Names are read back from what they are written as. -/
private theorem names_intercalate {ns : List (List Char)} (h : ∀ n ∈ ns, IsName n) :
    names (['/'].intercalate ns) = ns := by
  induction ns with
  | nil => rfl
  | cons n others ih =>
    have rest := ih fun m hm => h m (List.mem_cons_of_mem n hm)
    have name := names_of_isName (h n List.mem_cons_self)
    -- Only between two names a separator is written.
    cases others with
    | nil => rw [List.intercalate_singleton, name]
    | cons m others =>
      rw [List.intercalate_cons_cons, List.append_assoc, List.singleton_append,
        names_append_cons (.inl rfl), name, rest, List.singleton_append]

/-- The canonical way to write names keeps the names. -/
theorem names_canonical (rooted : Bool) {ns : List (List Char)} (h : ∀ n ∈ ns, IsName n) :
    names (canonical rooted ns) = ns := by
  cases rooted with
  | true => exact (names_cons_of_isSeparator (.inl rfl) _).trans (names_intercalate h)
  | false => exact names_intercalate h

/-- The canonical way to write names keeps where they start. -/
theorem startsWithSeparator_canonical (rooted : Bool) {ns : List (List Char)}
    (h : ∀ n ∈ ns, IsName n) : startsWithSeparator (canonical rooted ns) = rooted := by
  cases rooted with
  | true => rfl
  | false =>
    cases ns with
    | nil => rfl
    | cons n others =>
      -- The first name has no separator, so the spelling starts with none.
      have name := h n List.mem_cons_self
      obtain ⟨c, n, rfl⟩ := List.exists_cons_of_ne_nil name.1
      have inside : ¬ IsSeparator c := name.2 c List.mem_cons_self
      show startsWithSeparator (['/'].intercalate ((c :: n) :: others)) = false
      rw [List.intercalate_cons_cons_left]
      simpa [startsWithSeparator] using inside

/-! ## From the separators to the names -/

/-- With nothing before the first of some names, a separator comes first. -/
private theorem intercalate_nil_cons {ns : List (List Char)} (h : [] ∉ ns) :
    ['/'].intercalate ([] :: ns) =
      if ['/'].intercalate ns = [] then [] else '/' :: ['/'].intercalate ns := by
  cases ns with
  | nil => rfl
  | cons n others =>
    obtain ⟨c, n, rfl⟩ := List.exists_cons_of_ne_nil fun empty => h (empty ▸ List.mem_cons_self)
    rw [List.intercalate_cons_cons, List.intercalate_cons_cons_left, if_neg (List.cons_ne_nil c _)]
    rfl

/-- After a separator the names are written from the next one on; after a part of a name, what is
    left of that name comes before them.  Each needs the other, as a name begins after a separator
    and ends before one. -/
private theorem normalizeAfterSeparator_and_normalizeAfter (s : List Char) :
    normalizeAfterSeparator s = ['/'].intercalate ((Uri.pieces .file s).filter (· ≠ [])) ∧
      ∀ first others, Uri.pieces .file s = first :: others →
        normalizeAfter s = ['/'].intercalate (first :: others.filter (· ≠ [])) := by
  induction s using pieces_induction with
  | nil =>
    refine ⟨rfl, fun first others same => ?_⟩
    obtain ⟨rfl, rfl⟩ := List.cons.inj same
    rfl
  | separator c s hc ih =>
    refine ⟨?_, fun first others same => ?_⟩
    · rw [normalizeAfterSeparator_cons_of_isSeparator hc, ih.1, List.filter_cons_of_neg (by simp)]
    · -- The name before the separator is complete, and nothing is left of it.
      obtain ⟨rfl, rfl⟩ := List.cons.inj same
      rw [normalizeAfter_cons_eq_of_isSeparator hc, ih.1, intercalate_nil_cons (by simp)]
  | other c s piece others hc ih =>
    have rest := ih.2 piece others rfl
    refine ⟨?_, fun first others' same => ?_⟩
    · rw [normalizeAfterSeparator_cons_of_not hc, rest, List.filter_cons_of_pos (by simp),
        List.intercalate_cons_cons_left]
    · obtain ⟨rfl, rfl⟩ := List.cons.inj same
      rw [normalizeAfter_cons_of_not hc, rest, List.intercalate_cons_cons_left]

/-- The canonical spelling of a path is made of where it starts and of its names, and of nothing
    else. -/
theorem normalize_eq_canonical (s : List Char) :
    normalize s = canonical (startsWithSeparator s) (names s) := by
  have written : normalizeAfterSeparator s = ['/'].intercalate (names s) := by
    rw [names_eq_filter_pieces, (normalizeAfterSeparator_and_normalizeAfter s).1]
  cases s with
  | nil => rfl
  | cons c s =>
    by_cases h : IsSeparator c
    · have starts : startsWithSeparator (c :: s) = true := by simpa [startsWithSeparator] using h
      rw [normalize_cons_of_isSeparator h, ← normalizeAfterSeparator_cons_of_isSeparator h, written,
        starts]
      rfl
    · have starts : startsWithSeparator (c :: s) = false := by simpa [startsWithSeparator] using h
      rw [normalize_cons_of_not h, ← normalizeAfterSeparator_cons_of_not h, written, starts]
      rfl

/-! ## The canonical spelling says what the path says -/

/-- The canonical spelling has the names of the path. -/
private theorem names_normalize (s : List Char) : names (normalize s) = names s := by
  rw [normalize_eq_canonical, names_canonical _ fun n hn => isName_of_mem_names hn]

/-- The canonical spelling starts with a separator if the path does. -/
private theorem startsWithSeparator_normalize (s : List Char) :
    startsWithSeparator (normalize s) = startsWithSeparator s := by
  rw [normalize_eq_canonical, startsWithSeparator_canonical _ fun n hn => isName_of_mem_names hn]

/-- Two paths are spelled the same if they say the same, and only then. -/
private theorem normalize_eq_normalize_iff {s t : List Char} :
    normalize s = normalize t ↔
      names s = names t ∧ startsWithSeparator s = startsWithSeparator t := by
  constructor
  · intro same
    rw [← names_normalize s, ← startsWithSeparator_normalize s, same]
    exact ⟨names_normalize t, startsWithSeparator_normalize t⟩
  · rintro ⟨sameNames, sameStart⟩
    rw [normalize_eq_canonical s, normalize_eq_canonical t, sameNames, sameStart]

/-- The canonical spelling is its own. -/
private theorem normalize_normalize (s : List Char) : normalize (normalize s) = normalize s :=
  normalize_eq_normalize_iff.2 ⟨names_normalize s, startsWithSeparator_normalize s⟩

/-- The canonical spelling of a path has separators of one kind, no two of them side by side and
    none at the end of something else; it starts with one exactly if the path starts with any, and
    has the names of the path in their order.  Paths share it exactly if they start alike and have
    the same names, so it is its own canonical spelling. -/
theorem normalize_canonical (p : List Char) :
    ('\\' ∉ normalize p ∧ ¬ ['/', '/'] <:+: normalize p ∧
      ((normalize p).getLast? = some '/' ↔ normalize p = ['/'])) ∧
    ((normalize p).head? = some '/' ↔ startsWithSeparator p = true) ∧
    ((normalize p).splitOn '/').filter (· ≠ []) = names p ∧
    (∀ q, normalize p = normalize q ↔
      names p = names q ∧ startsWithSeparator p = startsWithSeparator q) ∧
    normalize (normalize p) = normalize p := by
  obtain ⟨oneKind, single, ends⟩ := normalize_eq_self_iff.1 (normalize_normalize p)
  refine ⟨⟨oneKind, single, ends, fun root => ?_⟩, ?_, ?_, fun q => normalize_eq_normalize_iff,
    normalize_normalize p⟩
  · rw [root]
    rfl
  · rw [← startsWithSeparator_iff_head? oneKind, startsWithSeparator_normalize]
  · rw [← names_eq_filter_splitOn oneKind, names_normalize]

/-- Either style names the same location. -/
example : normalize "C:\\abc\\\\def\\".toList = "C:/abc/def".toList := by decide

end ProjectFile.LocalPath
