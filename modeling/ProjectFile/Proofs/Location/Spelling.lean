import Mathlib.Data.List.Induction
import Mathlib.Logic.Relation
import ProjectFile.Location

/-!
# Spellings of a local path

A local path is read in its canonical spelling, which has one separator of one kind between its
segments, and none at its end.  The spelling says the same as the path that it is taken from: where
the path starts, and whether that makes it absolute, can be seen in either.

## Key results

- `LocalPath.collapse_concat`: a separator is written by a look at the end of the output
- `LocalPath.normalize_eq_self_iff`: which spellings are canonical
- `LocalPath.isSome_rooted?_normalize`: the canonical spelling is absolute exactly if the path is
- `LocalPath.Restyled.normalize_eq`: paths that differ only in their separators have the same
  canonical spelling
-/

namespace ProjectFile.LocalPath

open ProjectFile.Text

/-- Whether a character is a separator of either kind. -/
def IsSeparator (c : Char) : Prop :=
  c = '/' ∨ c = '\\'

instance (c : Char) : Decidable (IsSeparator c) :=
  inferInstanceAs (Decidable (_ ∨ _))

/-! ## Separators of one kind -/

/-- No separator is white space. -/
private theorem isWhiteSpace_of_isSeparator {c : Char} (h : IsSeparator c) :
    isWhiteSpace c = false := by
  rcases h with rfl | rfl <;> decide

/-- Both kinds of separators become slashes. -/
private theorem unifySeparator_of_isSeparator {c : Char} (h : IsSeparator c) :
    unifySeparator c = '/' := by
  rcases h with rfl | rfl <;> rfl

/-- Any character but a backslash stays. -/
private theorem unifySeparator_of_ne {c : Char} (h : c ≠ '\\') : unifySeparator c = c :=
  if_neg h

/-- A character that is no separator stays what it is. -/
private theorem unifySeparator_eq_iff {c d : Char} (h : d ≠ '/') :
    unifySeparator c = d ↔ c = d ∧ d ≠ '\\' := by
  unfold unifySeparator
  split
  · rename_i backslash
    exact ⟨fun same => absurd same.symm h, fun ⟨same, other⟩ => absurd (same ▸ backslash) other⟩
  · rename_i other
    exact ⟨fun same => ⟨same, same ▸ other⟩, fun ⟨same, _⟩ => same⟩

/-- A text has its separators of one kind exactly if it has no backslashes. -/
theorem map_unifySeparator_eq_self_iff {s : List Char} :
    s.map unifySeparator = s ↔ '\\' ∉ s := by
  constructor
  · intro h mem
    rw [← h] at mem
    obtain ⟨c, -, hc⟩ := List.mem_map.1 mem
    exact ((unifySeparator_eq_iff (by decide)).1 hc).2 rfl
  · intro h
    refine (List.map_congr_left fun c mem => ?_).trans (List.map_id s)
    exact unifySeparator_of_ne fun same => h (same ▸ mem)

/-! ## Repeated separators -/

/-- A character that is no separator is written. -/
private theorem collapse_cons_of_ne (b : Bool) {c : Char} (h : c ≠ '/') (s : List Char) :
    collapse b (c :: s) = c :: collapse false s :=
  if_neg h

/-- A separator is written behind something else. -/
private theorem collapse_false_slash (s : List Char) :
    collapse false ('/' :: s) = '/' :: collapse true s :=
  rfl

/-- A separator behind another one is left out. -/
private theorem collapse_true_slash (s : List Char) : collapse true ('/' :: s) = collapse true s :=
  rfl

/-- After a separator none is left. -/
private theorem head?_collapse_true (s : List Char) : (collapse true s).head? ≠ some '/' := by
  induction s with
  | nil => simp [collapse]
  | cons c s ih =>
    by_cases slash : c = '/'
    · rwa [slash, collapse_true_slash]
    · rw [collapse_cons_of_ne true slash, List.head?_cons]
      exact fun same => slash (Option.some.inj same)

/-- Writing a text only leaves characters out. -/
private theorem collapse_sublist (b : Bool) (s : List Char) : (collapse b s).Sublist s := by
  induction s generalizing b with
  | nil => exact List.Sublist.slnil
  | cons c s ih =>
    unfold collapse
    split
    · -- Behind a separator this one is left out, and else it is written.
      split
      · exact (ih true).cons c
      · rename_i slash _
        exact slash ▸ (ih true).cons_cons '/'
    · exact (ih false).cons_cons c

/-- Whether a text ends in a separator; the flag says what comes before it. -/
def ending (b : Bool) (s : List Char) : Bool :=
  s.foldl (fun _ c => c == '/') b

/-- What is written of a text depends on the one before it only by whether that ends in a
    separator. -/
private theorem collapse_append (b : Bool) (s t : List Char) :
    collapse b (s ++ t) = collapse b s ++ collapse (ending b s) t := by
  induction s generalizing b with
  | nil => rfl
  | cons c s ih =>
    -- A separator is what the rest has before it, whether it is written or not.
    by_cases slash : c = '/'
    · subst slash
      cases b with
      | true => exact ih true
      | false => exact congrArg ('/' :: ·) (ih true)
    · have other : (c == '/') = false := by simpa using slash
      rw [List.cons_append, collapse_cons_of_ne b slash, collapse_cons_of_ne b slash, ih,
        List.cons_append, ending, ending, List.foldl_cons, other]

/-- A text ends in a separator if its last character is one. -/
private theorem ending_iff_getLast? {s : List Char} :
    ending false s = true ↔ s.getLast? = some '/' := by
  cases s using List.reverseRecOn with
  | nil => simp [ending]
  | append_singleton s c => simp [ending]

/-- What is written ends in a separator if the text does. -/
private theorem ending_collapse (b : Bool) (s : List Char) :
    ending b (collapse b s) = ending b s := by
  induction s generalizing b with
  | nil => rfl
  | cons c s ih =>
    by_cases slash : c = '/'
    · subst slash
      cases b with
      | true => exact ih true
      | false => exact ih true
    · have other : (c == '/') = false := by simpa using slash
      rw [collapse_cons_of_ne b slash, ending, ending, List.foldl_cons, List.foldl_cons, other]
      exact ih false

/-- One more character: a separator is written unless what is written so far ends in one. -/
theorem collapse_concat (s : List Char) (c : Char) :
    collapse false (s ++ [c]) =
      if c = '/' ∧ (collapse false s).getLast? = some '/' then collapse false s
      else collapse false s ++ [c] := by
  -- The flag that is handed on says what a look at the end of the output would.
  have flag : (collapse false s).getLast? = some '/' ↔ ending false s = true := by
    rw [← ending_iff_getLast?, ending_collapse]
  rw [collapse_append]
  by_cases slash : c = '/'
  · cases ends : ending false s <;> simp [collapse, slash, flag, ends]
  · simp [collapse, slash]

/-- Two separators side by side. -/
private theorem slashes_infix_cons_iff {c : Char} {s : List Char} :
    ['/', '/'] <:+: c :: s ↔ (c = '/' ∧ s.head? = some '/') ∨ ['/', '/'] <:+: s := by
  rw [List.infix_cons_iff, List.cons_prefix_cons, eq_comm]
  cases s with
  | nil => simp
  | cons d s => simp [List.cons_prefix_cons, eq_comm]

/-- A text is left as it is if it has no two separators side by side, and none after one. -/
private theorem collapse_eq_self_iff (b : Bool) (s : List Char) :
    collapse b s = s ↔ ¬ ['/', '/'] <:+: s ∧ (b = true → s.head? ≠ some '/') := by
  induction s generalizing b with
  | nil => simp [collapse]
  | cons c s ih =>
    rw [slashes_infix_cons_iff]
    by_cases slash : c = '/'
    · subst slash
      cases b with
      | true =>
        -- The separator is left out, so the text gets shorter.
        have shorter := (collapse_sublist true s).length_le
        refine ⟨fun h => ?_, fun h => absurd rfl (h.2 rfl)⟩
        rw [collapse_true_slash] at h
        rw [h, List.length_cons] at shorter
        omega
      | false =>
        rw [collapse_false_slash, List.cons_inj_right, ih true]
        simp [and_comm]
    · rw [collapse_cons_of_ne b slash, List.cons_inj_right, ih false]
      simp [slash]

/-! ## A separator at the end -/

/-- Nothing is added at the end. -/
private theorem dropFinalSeparator_sublist (s : List Char) : (dropFinalSeparator s).Sublist s := by
  unfold dropFinalSeparator
  split
  · exact List.dropLast_sublist s
  · exact List.Sublist.refl s

/-- A separator at the end of something is dropped. -/
private theorem dropFinalSeparator_concat {s : List Char} (h : s ≠ []) :
    dropFinalSeparator (s ++ ['/']) = s := by
  have long : 1 < (s ++ ['/']).length := by
    have := List.length_pos_iff.2 h
    simpa using this
  rw [dropFinalSeparator, if_pos ⟨long, List.getLast?_concat⟩, List.dropLast_concat]

/-- A text that does not end in a separator stays. -/
private theorem dropFinalSeparator_of_getLast? {s : List Char} (h : s.getLast? ≠ some '/') :
    dropFinalSeparator s = s :=
  if_neg fun drops => h drops.2

/-- A text stays exactly if no separator ends it, unless it is the root. -/
private theorem dropFinalSeparator_eq_self_iff {s : List Char} :
    dropFinalSeparator s = s ↔ (s.getLast? = some '/' → s = ['/']) := by
  cases s using List.reverseRecOn with
  | nil => simp [dropFinalSeparator]
  | append_singleton s c =>
    by_cases slash : c = '/'
    · subst slash
      by_cases empty : s = []
      · subst empty
        simp [dropFinalSeparator]
      · rw [dropFinalSeparator_concat empty]
        simp [empty]
    · rw [dropFinalSeparator_of_getLast? (by simpa using slash)]
      simp [slash]

/-! ## The canonical spelling -/

/-- The canonical spelling of a path is no longer than the path. -/
theorem normalize_length_le (s : List Char) : (normalize s).length ≤ s.length := by
  have shorter := ((dropFinalSeparator_sublist _).trans
    (collapse_sublist false (s.map unifySeparator))).length_le
  rwa [List.length_map] at shorter

/-- The canonical spelling of a path has no characters but those of the path, and separators. -/
theorem mem_normalize {s : List Char} {c : Char} (h : c ∈ normalize s) : c = '/' ∨ c ∈ s := by
  have mem := ((dropFinalSeparator_sublist _).trans
    (collapse_sublist false (s.map unifySeparator))).subset h
  obtain ⟨d, hd, rfl⟩ := List.mem_map.1 mem
  unfold unifySeparator
  split
  · exact .inl rfl
  · exact .inr hd

/-- A spelling that is no shorter than the path differs from it in the kind of its separators
    only. -/
theorem normalize_of_length_le {s : List Char} (h : s.length ≤ (normalize s).length) :
    normalize s = s.map unifySeparator ∧
      collapse false (s.map unifySeparator) = s.map unifySeparator := by
  have dropped := dropFinalSeparator_sublist (collapse false (s.map unifySeparator))
  have collapsed := collapse_sublist false (s.map unifySeparator)
  have length : (s.map unifySeparator).length ≤ (normalize s).length := by rwa [List.length_map]
  have collapses := collapsed.eq_of_length_le (Nat.le_trans length dropped.length_le)
  refine ⟨(dropped.trans collapsed).eq_of_length_le length, collapses⟩

/-- A path is in its canonical spelling if its separators are all of one kind, no two of them side
    by side, and none at the end of something else. -/
theorem normalize_eq_self_iff {s : List Char} :
    normalize s = s ↔
      '\\' ∉ s ∧ ¬ ['/', '/'] <:+: s ∧ (s.getLast? = some '/' → s = ['/']) := by
  constructor
  · intro h
    obtain ⟨same, collapses⟩ := normalize_of_length_le (Nat.le_of_eq (congrArg List.length h).symm)
    have unified : s.map unifySeparator = s := same.symm.trans h
    have keeps : dropFinalSeparator s = s := by
      rwa [normalize, collapses, unified] at h
    rw [unified] at collapses
    exact ⟨map_unifySeparator_eq_self_iff.1 unified,
      ((collapse_eq_self_iff false s).1 collapses).1, dropFinalSeparator_eq_self_iff.1 keeps⟩
  · rintro ⟨unified, collapses, keeps⟩
    rw [normalize, map_unifySeparator_eq_self_iff.2 unified,
      (collapse_eq_self_iff false s).2 ⟨collapses, by simp⟩, dropFinalSeparator_eq_self_iff.2 keeps]

/-! ## The canonical spelling from its start -/

/-- A text without a separator at its end. -/
def dropEnd (s : List Char) : List Char :=
  if s.getLast? = some '/' then s.dropLast else s

/-- Whether the end is dropped is decided there, not at the start. -/
private theorem dropEnd_cons_cons (c d : Char) (s : List Char) :
    dropEnd (c :: d :: s) = c :: dropEnd (d :: s) := by
  rw [dropEnd, dropEnd, List.getLast?_cons_cons, List.dropLast_cons_cons]
  split <;> rfl

/-- A character that is no separator is not dropped. -/
private theorem dropEnd_cons_of_ne {c : Char} (h : c ≠ '/') (s : List Char) :
    dropEnd (c :: s) = c :: dropEnd s := by
  cases s with
  | nil => simp [dropEnd, h]
  | cons d s => exact dropEnd_cons_cons c d s

/-- The first character always stays. -/
private theorem dropFinalSeparator_cons (c : Char) (s : List Char) :
    dropFinalSeparator (c :: s) = c :: dropEnd s := by
  cases s with
  | nil => rfl
  | cons d s =>
    have long : 1 < (c :: d :: s).length := by simp
    rw [dropFinalSeparator, dropEnd, List.getLast?_cons_cons, List.dropLast_cons_cons]
    simp only [long, true_and]
    split <;> rfl

/-- What is no separator is written as it is, whatever comes before it. -/
private theorem collapse_map_cons_of_not (b : Bool) {c : Char} (h : ¬ IsSeparator c)
    (s : List Char) :
    collapse b ((c :: s).map unifySeparator) = c :: collapse false (s.map unifySeparator) := by
  rw [List.map_cons, unifySeparator_of_ne fun same => h (.inr same),
    collapse_cons_of_ne b fun same => h (.inl same)]

/-- An empty path stays empty. -/
theorem normalize_nil : normalize [] = [] := rfl

/-- The canonical spelling of what follows a separator. -/
def normalizeAfterSeparator (s : List Char) : List Char :=
  dropEnd (collapse true (s.map unifySeparator))

/-- A path that starts with a separator is spelled with one slash at the start. -/
theorem normalize_cons_of_isSeparator {c : Char} (h : IsSeparator c) (s : List Char) :
    normalize (c :: s) = '/' :: normalizeAfterSeparator s := by
  rw [normalize, List.map_cons, unifySeparator_of_isSeparator h, collapse_false_slash,
    dropFinalSeparator_cons, normalizeAfterSeparator]

/-- The canonical spelling of what follows something else than a separator. -/
def normalizeAfter (s : List Char) : List Char :=
  dropEnd (collapse false (s.map unifySeparator))

/-- Any other first character is spelled as it is. -/
theorem normalize_cons_of_not {c : Char} (h : ¬ IsSeparator c) (s : List Char) :
    normalize (c :: s) = c :: normalizeAfter s := by
  rw [normalize, collapse_map_cons_of_not false h, dropFinalSeparator_cons, normalizeAfter]

/-- A separator after another one does not count. -/
theorem normalizeAfterSeparator_cons_of_isSeparator {c : Char} (h : IsSeparator c)
    (s : List Char) : normalizeAfterSeparator (c :: s) = normalizeAfterSeparator s := by
  rw [normalizeAfterSeparator, List.map_cons, unifySeparator_of_isSeparator h,
    collapse_true_slash, normalizeAfterSeparator]

/-- A name begins behind a separator. -/
theorem normalizeAfterSeparator_cons_of_not {c : Char} (h : ¬ IsSeparator c) (s : List Char) :
    normalizeAfterSeparator (c :: s) = c :: normalizeAfter s := by
  rw [normalizeAfterSeparator, collapse_map_cons_of_not true h,
    dropEnd_cons_of_ne fun same => h (.inl same), normalizeAfter]

/-- A name goes on behind its first character. -/
theorem normalizeAfter_cons_of_not {c : Char} (h : ¬ IsSeparator c) (s : List Char) :
    normalizeAfter (c :: s) = c :: normalizeAfter s := by
  rw [normalizeAfter, collapse_map_cons_of_not false h,
    dropEnd_cons_of_ne fun same => h (.inl same), normalizeAfter]

/-- A separator after something else stays if something follows that is no separator. -/
theorem normalizeAfter_cons_eq_of_isSeparator {c : Char} (h : IsSeparator c) (s : List Char) :
    normalizeAfter (c :: s) =
      if normalizeAfterSeparator s = [] then [] else '/' :: normalizeAfterSeparator s := by
  have unslashed := head?_collapse_true (s.map unifySeparator)
  rw [normalizeAfter, List.map_cons, unifySeparator_of_isSeparator h, collapse_false_slash,
    normalizeAfterSeparator]
  cases hs : collapse true (s.map unifySeparator) with
  | nil => rfl
  | cons d t =>
    rw [hs, List.head?_cons, Ne, Option.some.injEq] at unslashed
    rw [dropEnd_cons_cons, dropEnd_cons_of_ne unslashed, if_neg (List.cons_ne_nil d _)]

/-- A name is followed by a slash, or by nothing. -/
private theorem normalizeAfter_cons_of_isSeparator {c : Char} (h : IsSeparator c) (s : List Char) :
    ∀ d ∈ (normalizeAfter (c :: s)).head?, d = '/' := by
  rw [normalizeAfter_cons_eq_of_isSeparator h]
  split <;> simp

/-- Only an empty path is spelled as nothing. -/
theorem normalize_eq_nil_iff {s : List Char} : normalize s = [] ↔ s = [] := by
  cases s with
  | nil => simp [normalize_nil]
  | cons c s =>
    by_cases h : IsSeparator c
    · simp [normalize_cons_of_isSeparator h]
    · simp [normalize_cons_of_not h]

/-! ## Absolute paths -/

/-- Whether a path is absolute: it starts with a separator, or with a drive. -/
inductive IsAbsolute : List Char → Prop where
  | rooted {c : Char} {rest : List Char} : IsSeparator c → IsAbsolute (c :: rest)
  | drive {letter : Char} : letter.isAlpha = true → IsAbsolute [letter, ':']
  | onDrive {letter c : Char} {rest : List Char} :
    letter.isAlpha = true → IsSeparator c → IsAbsolute (letter :: ':' :: c :: rest)

/-- A text starts with a drive if it starts with a letter and a colon, and then a slash if
    anything. -/
theorem startsWithDrive_iff {s : List Char} :
    startsWithDrive s = true ↔
      ∃ letter rest, s = letter :: ':' :: rest ∧ letter.isAlpha = true ∧
        ∀ c ∈ rest.head?, c = '/' := by
  constructor
  · intro h
    unfold startsWithDrive at h
    split at h
    · exact ⟨_, [], rfl, h, by simp⟩
    · exact ⟨_, _, rfl, h, by simp⟩
    · simp at h
  · rintro ⟨letter, rest, rfl, isLetter, after⟩
    -- The drive ends the text, or a slash follows.
    cases rest with
    | nil => exact isLetter
    | cons c rest =>
      obtain rfl := after c rfl
      exact isLetter

/-- No letter is a separator. -/
theorem not_isSeparator_of_isAlpha {c : Char} (h : c.isAlpha = true) : ¬ IsSeparator c := by
  rintro (rfl | rfl) <;> exact absurd h (by decide)

/-- A colon is no separator. -/
private theorem not_isSeparator_colon : ¬ IsSeparator ':' := by
  decide

/-- A path that does not start with a separator is absolute if it starts with a drive. -/
private theorem startsWithDrive_normalize_iff {c : Char} {s : List Char} (h : ¬ IsSeparator c) :
    startsWithDrive (normalize (c :: s)) = true ↔ IsAbsolute (c :: s) := by
  rw [startsWithDrive_iff, normalize_cons_of_not h]
  constructor
  · rintro ⟨letter, rest, same, isLetter, after⟩
    -- The colon is no separator, so it stands behind the letter in the path, too.
    obtain ⟨rfl, second⟩ := List.cons.inj same
    cases s with
    | nil => simp [normalizeAfter, collapse, dropEnd] at second
    | cons d s =>
      by_cases separates : IsSeparator d
      · have first := normalizeAfter_cons_of_isSeparator separates s ':' (by simp [second])
        simp at first
      · rw [normalizeAfter_cons_of_not separates] at second
        obtain ⟨rfl, rfl⟩ := List.cons.inj second
        cases s with
        | nil => exact .drive isLetter
        | cons e s =>
          by_cases separates : IsSeparator e
          · exact .onDrive isLetter separates
          · rw [normalizeAfter_cons_of_not separates] at after
            exact absurd (.inl (after e rfl)) separates
  · intro absolute
    cases absolute with
    | rooted separates => exact absurd separates h
    | drive isLetter => exact ⟨c, [], rfl, isLetter, by simp⟩
    | onDrive isLetter separates =>
      rw [normalizeAfter_cons_of_not not_isSeparator_colon]
      exact ⟨c, _, rfl, isLetter, normalizeAfter_cons_of_isSeparator separates _⟩

/-- The canonical spelling is absolute exactly if the path is. -/
theorem isSome_rooted?_normalize {s : List Char} :
    (rooted? (normalize s)).isSome = true ↔ IsAbsolute s := by
  cases s with
  | nil =>
    refine ⟨fun h => ?_, fun h => nomatch h⟩
    simp [rooted?, normalize_nil, startsWithDrive] at h
  | cons c s =>
    by_cases h : IsSeparator c
    · rw [normalize_cons_of_isSeparator h]
      exact ⟨fun _ => .rooted h, fun _ => rfl⟩
    · -- A path that does not start with a separator needs a drive.
      have unrooted : (normalize (c :: s)).head? ≠ some '/' := by
        rw [normalize_cons_of_not h]
        exact fun slash => h (.inl (Option.some.inj slash))
      rw [← startsWithDrive_normalize_iff h, rooted?, if_neg unrooted]
      split <;> simp [*]

/-! ## Other separators -/

/-- One change to the separators of a path: another kind, one more of them, or one at the end. -/
inductive Restyle : List Char → List Char → Prop where
  | swap (before after : List Char) {c d : Char} :
    IsSeparator c → IsSeparator d → Restyle (before ++ c :: after) (before ++ d :: after)
  | double (before after : List Char) {c : Char} :
    IsSeparator c → Restyle (before ++ c :: after) (before ++ c :: c :: after)
  | close (s : List Char) {c : Char} : IsSeparator c → Restyle s (s ++ [c])

/-- Whether two paths differ in nothing but the kind of their separators, and in how many there are
    where one is, or at the end. -/
def Restyled : List Char → List Char → Prop :=
  Relation.ReflTransGen Restyle

/-- Two separators side by side are written as one. -/
private theorem collapse_double (b : Bool) (before after : List Char) :
    collapse b (before ++ '/' :: '/' :: after) = collapse b (before ++ '/' :: after) := by
  rw [collapse_append, collapse_append]
  cases ending b before <;> rfl

/-- A separator at the end of something does not count. -/
private theorem dropFinalSeparator_collapse_concat {s : List Char} (h : s ≠ []) :
    dropFinalSeparator (collapse false (s ++ ['/'])) = dropFinalSeparator (collapse false s) := by
  have nonempty : collapse false s ≠ [] := by
    obtain ⟨c, s, rfl⟩ := List.exists_cons_of_ne_nil h
    unfold collapse
    split <;> simp
  rw [collapse_concat]
  split
  · rfl
  · rename_i writes
    have unended : (collapse false s).getLast? ≠ some '/' := fun ends => writes ⟨rfl, ends⟩
    rw [dropFinalSeparator_concat nonempty, dropFinalSeparator_of_getLast? unended]

namespace Restyle

variable {s t : List Char}

/-- A path with a changed separator is not empty. -/
private theorem ne_nil (h : Restyle s t) : t ≠ [] := by
  cases h <;> simp

/-- A change to the separators does not change the canonical spelling. -/
private theorem normalize_eq (h : Restyle s t) (nonempty : s ≠ []) : normalize t = normalize s := by
  cases h with
  | swap before after hc hd =>
    rw [normalize, normalize, List.map_append, List.map_append, List.map_cons, List.map_cons,
      unifySeparator_of_isSeparator hc, unifySeparator_of_isSeparator hd]
  | double before after hc =>
    rw [normalize, normalize, List.map_append, List.map_append, List.map_cons, List.map_cons,
      unifySeparator_of_isSeparator hc, collapse_double]
  | close _ hc =>
    rw [normalize, normalize, List.map_append, List.map_singleton,
      unifySeparator_of_isSeparator hc,
      dropFinalSeparator_collapse_concat (by simpa using nonempty)]

/-- Separators are no white space, so a trimmed path stays trimmed. -/
private theorem bareStart (h : Restyle s t) (bare : BareStart s) (nonempty : s ≠ []) :
    BareStart t := by
  cases h with
  | swap before after hc hd =>
    cases before with
    | nil => simpa [BareStart] using isWhiteSpace_of_isSeparator hd
    | cons => exact bare
  | double before after hc =>
    cases before with
    | nil => exact bare
    | cons => exact bare
  | close s hc =>
    cases s with
    | nil => exact absurd rfl nonempty
    | cons => exact bare

/-- A path that does not end in white space does not do so with other separators. -/
private theorem bareStart_reverse (h : Restyle s t) (bare : BareStart s.reverse) :
    BareStart t.reverse := by
  -- A text that is changed inside is changed in the same way when it is read from its end.
  have reversed : ∀ (before after : List Char) (c : Char),
      (before ++ c :: after).reverse = after.reverse ++ c :: before.reverse := by
    simp
  cases h with
  | swap before after hc hd =>
    rw [reversed] at bare ⊢
    exact (swap after.reverse before.reverse hc hd).bareStart bare (by simp)
  | double before after hc =>
    rw [List.append_cons, reversed, List.reverse_append, List.reverse_singleton,
      List.singleton_append]
    rw [reversed] at bare
    exact (double after.reverse before.reverse hc).bareStart bare (by simp)
  | close s hc =>
    rw [List.reverse_append, List.reverse_singleton]
    intro d hd
    obtain rfl := Option.some.inj hd
    exact isWhiteSpace_of_isSeparator hc

/-- A trimmed path stays trimmed. -/
private theorem trimmed (h : Restyle s t) (trimmed : trimChars s = s) (nonempty : s ≠ []) :
    trimChars t = t := by
  rw [trimChars_eq_self_iff] at trimmed ⊢
  exact ⟨h.bareStart trimmed.1 nonempty, h.bareStart_reverse trimmed.2⟩

end Restyle

/-- Paths that differ only in their separators have the same canonical spelling, and none of them
    has white space around it if one has none. -/
theorem Restyled.normalize_eq {s t : List Char} (h : Restyled s t) (nonempty : s ≠ [])
    (trimmed : trimChars s = s) : t ≠ [] ∧ trimChars t = t ∧ normalize t = normalize s := by
  induction h with
  | refl => exact ⟨nonempty, trimmed, rfl⟩
  | tail _ step ih =>
    obtain ⟨between, bare, same⟩ := ih
    exact ⟨step.ne_nil, step.trimmed bare between, (step.normalize_eq between).trans same⟩

end ProjectFile.LocalPath
