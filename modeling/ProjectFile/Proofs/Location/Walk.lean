import ProjectFile.Proofs.Location.Pieces
import ProjectFile.Proofs.Uri.Percent

/-!
# The segments that a local path names

The path of a URI is walked over segment by segment.  For a local path the walk can be followed on
the text itself: dots take segments back, and a first segment that is a drive has its mark turned
into a colon.  What a step can do is said once, by `LocalPath.Step`; that nothing gets longer, and
that no dots are left, follows for the whole walk.

## Key results

- `LocalPath.step_advance`: what a step does
- `LocalPath.length_joined_segments`: the segments of a path are no longer than the path
- `LocalPath.noDots_segments`: no dots are left as segments, unless tabs and line breaks keep them
- `LocalPath.segments_eq_pieces`: a path without dots and drives to mend has its pieces as segments
-/

namespace ProjectFile.LocalPath

/-! ## The walk -/

/-- The segments without the last one, which comes first, unless that is a drive. -/
def back : List (List Char) → List (List Char)
  | [] => []
  | last :: before => if Uri.isDrive last then last :: before else before

/-- The segments after one of dots, which leaves an empty segment at the end of a path. -/
def close (isLast : Bool) (segments : List (List Char)) : List (List Char) :=
  if isLast then [] :: segments else segments

/-- Reads one segment, which is the last one of its path or not; the segments read before it come
    latest first. -/
def advance (isLast : Bool) (segments : List (List Char)) (raw : List Char) : List (List Char) :=
  match if segments.isEmpty then Uri.afterBrokenDrive? raw else none with
  | some (drive, after) => after :: drive :: segments
  | none =>
    if Uri.dropBreaks raw = ['.', '.'] then close isLast (back segments)
    else if Uri.dropBreaks raw = ['.'] then close isLast segments
    else if segments.isEmpty && Uri.isDrive (Uri.dropBreaks raw) then
      [(Uri.dropBreaks raw).take 1 ++ [':']]
    else Uri.dropBreaks raw :: segments

/-- Reads a list of segments. -/
def advanceAll (segments : List (List Char)) : List (List Char) → List (List Char)
  | [] => segments
  | raw :: rest => advanceAll (advance rest.isEmpty segments raw) rest

/-- The segments of a path after its root. -/
def segments (s : List Char) : List (List Char) :=
  Uri.dropEmptyStart (advanceAll [] (Uri.pieces .file s)).reverse

/-! ## Broken drives -/

/-- What is found where a drive is broken: the drive, and more text behind the break. -/
structure BrokenDrive (raw drive after : List Char) : Prop where
  isDrive : ∃ letter, letter.isAlpha = true ∧ drive = [letter, ':']
  nonempty : after ≠ []
  broken : ∃ c ∈ raw, Uri.isBreak c = true
  shorter : after.length + 3 ≤ raw.length
  rest : ∀ c ∈ after, c ∈ raw ∧ Uri.isBreak c = false

/-- What is behind the breaks at the start is a part of the text. -/
private theorem mem_of_mem_skipBreaks {s : List Char} {c : Char} (h : c ∈ Uri.skipBreaks s) :
    c ∈ s :=
  (List.dropWhile_sublist Uri.isBreak).subset h

/-- A drive is found broken where there is a letter, a colon, a break, and more text. -/
theorem brokenDrive_of_eq_some {raw drive after : List Char}
    (h : Uri.afterBrokenDrive? raw = some (drive, after)) : BrokenDrive raw drive after := by
  unfold Uri.afterBrokenDrive? at h
  split at h
  · simp at h
  · rename_i letter middle atLetter
    split at h
    · simp at h
    · rename_i mark rest atMark
      simp only at h
      split at h
      · rename_i found
        simp only [Bool.and_eq_true, beq_iff_eq, bne_iff_ne] at found
        obtain ⟨⟨⟨isLetter, rfl⟩, breaks⟩, nonempty⟩ := found
        obtain ⟨rfl, rfl⟩ := Prod.mk.inj (Option.some.inj h)
        cases rest with
        | nil => simp at breaks
        | cons b tail =>
          have first : Uri.isBreak b = true := breaks
          have inRaw : ∀ c ∈ b :: tail, c ∈ raw := by
            intro c hc
            have inMiddle := mem_of_mem_skipBreaks (s := middle)
              (atMark ▸ List.mem_cons_of_mem ':' hc)
            exact mem_of_mem_skipBreaks (atLetter ▸ List.mem_cons_of_mem letter inMiddle)
          -- The letter, the colon and the break are no part of what follows.
          have inSkipped := (List.dropWhile_sublist (l := raw) Uri.isBreak).length_le
          have inMiddle := (List.dropWhile_sublist (l := middle) Uri.isBreak).length_le
          have dropped := (List.filter_sublist (l := tail) (p := fun c => !Uri.isBreak c)).length_le
          rw [← Uri.skipBreaks, atLetter] at inSkipped
          rw [← Uri.skipBreaks, atMark] at inMiddle
          have after : Uri.dropBreaks (b :: tail) = Uri.dropBreaks tail := by
            simp [Uri.dropBreaks, first]
          refine ⟨⟨letter, isLetter, rfl⟩, nonempty, ⟨b, inRaw b (by simp), first⟩, ?_, ?_⟩
          · rw [after, Uri.dropBreaks]
            simp only [List.length_cons] at inSkipped inMiddle
            omega
          · intro c hc
            rw [Uri.dropBreaks, List.mem_filter] at hc
            exact ⟨inRaw c hc.1, by simpa using hc.2⟩
      · simp at h

/-! ## Steps -/

/-- What a step can do to the segments read so far. -/
inductive Step (isLast : Bool) (before : List (List Char)) (raw : List Char) :
    List (List Char) → Prop where
  /-- A drive and what follows its break are two segments. -/
  | broken {drive after : List Char} : before = [] → BrokenDrive raw drive after →
    Step isLast before raw (after :: drive :: before)
  /-- Dots leave an empty segment only at the end. -/
  | dots {kept : List (List Char)} : kept = before ∨ kept = back before →
    Uri.dropBreaks raw = ['.'] ∨ Uri.dropBreaks raw = ['.', '.'] →
    Step isLast before raw (close isLast kept)
  | drive {letter mark : Char} : before = [] → Uri.dropBreaks raw = [letter, mark] →
    letter.isAlpha = true → Step isLast before raw [[letter, ':']]
  | push : Uri.dropBreaks raw ≠ ['.'] → Uri.dropBreaks raw ≠ ['.', '.'] →
    Step isLast before raw (Uri.dropBreaks raw :: before)

/-- Reading a segment is one of the steps. -/
theorem step_advance (isLast : Bool) (before : List (List Char)) (raw : List Char) :
    Step isLast before raw (advance isLast before raw) := by
  unfold advance
  split
  · rename_i drive after found
    split at found
    · rename_i empty
      exact .broken (List.isEmpty_iff.1 empty) (brokenDrive_of_eq_some found)
    · simp at found
  · -- Dots come before drives, as in the walk itself.
    by_cases double : Uri.dropBreaks raw = ['.', '.']
    · rw [if_pos double]
      exact .dots (.inr rfl) (.inr double)
    by_cases single : Uri.dropBreaks raw = ['.']
    · rw [if_neg double, if_pos single]
      exact .dots (.inl rfl) (.inl single)
    rw [if_neg double, if_neg single]
    split
    · rename_i isFirst
      rw [Bool.and_eq_true] at isFirst
      obtain ⟨letter, mark, hraw, isLetter, -⟩ := isDrive_eq isFirst.2
      rw [hraw]
      exact .drive (List.isEmpty_iff.1 isFirst.1) hraw isLetter
    · exact .push single double

/-- What each step keeps holds after all of them. -/
private theorem advanceAll_induction {motive : List (List Char) → Prop} {raws : List (List Char)}
    (step : ∀ isLast before raw, raw ∈ raws → motive before → ∀ after,
      Step isLast before raw after → motive after)
    {before : List (List Char)} (start : motive before) : motive (advanceAll before raws) := by
  induction raws generalizing before with
  | nil => exact start
  | cons raw raws ih =>
    exact ih (fun isLast before r hr => step isLast before r (List.mem_cons_of_mem raw hr))
      (step raws.isEmpty before raw (by simp) start _ (step_advance _ _ _))

/-- Taking a segment back adds none. -/
private theorem back_subset (segments : List (List Char)) : back segments ⊆ segments := by
  cases segments with
  | nil => exact List.Subset.refl []
  | cons last before =>
    rw [back]
    split
    · exact List.Subset.refl _
    · exact List.subset_cons_self last before

/-- Taking a segment back makes nothing longer. -/
private theorem length_joined_back (segments : List (List Char)) :
    (joined (back segments)).length ≤ (joined segments).length := by
  cases segments with
  | nil => exact Nat.le_refl _
  | cons last before =>
    rw [back]
    split
    · exact Nat.le_refl _
    · rw [joined_cons, List.length_append]
      exact Nat.le_add_left _ _

/-- Dots add at most a separator. -/
private theorem length_joined_close (isLast : Bool) (segments : List (List Char)) :
    (joined (close isLast segments)).length ≤ (joined segments).length + 1 := by
  cases isLast <;> simp [close, joined_cons]

/-- Dots add at most an empty segment. -/
private theorem mem_close {isLast : Bool} {segments : List (List Char)} {d : List Char}
    (h : d ∈ close isLast segments) : d = [] ∨ d ∈ segments := by
  cases isLast with
  | false => exact .inr h
  | true => exact List.mem_cons.1 h

namespace Step

variable {isLast : Bool} {before after : List (List Char)} {raw : List Char}

/-- No step reads a segment that could not be one. -/
theorem isSegment (h : Step isLast before raw after) (pure : ∀ c ∈ raw, ¬ IsSeparator c)
    (segments : ∀ d ∈ before, IsSegment d) : ∀ d ∈ after, IsSegment d := by
  cases h with
  | broken _ found =>
    obtain ⟨letter, isLetter, rfl⟩ := found.isDrive
    intro d hd
    rcases List.mem_cons.1 hd with rfl | hd
    · -- What follows the break has characters of the segment only, and no breaks.
      exact fun c hc => ⟨pure c (found.rest c hc).1, (found.rest c hc).2⟩
    · rcases List.mem_cons.1 hd with rfl | hd
      · exact isSegment_drive isLetter
      · exact segments d hd
  | dots kept _ =>
    intro d hd
    rcases mem_close hd with rfl | hd
    · exact isSegment_nil
    · rcases kept with rfl | rfl
      · exact segments d hd
      · exact segments d (back_subset _ hd)
  | drive _ _ isLetter =>
    intro d hd
    rw [List.mem_singleton.1 hd]
    exact isSegment_drive isLetter
  | push =>
    intro d hd
    rcases List.mem_cons.1 hd with rfl | hd
    · exact isSegment_dropBreaks pure
    · exact segments d hd

/-- Each step adds at most as much as it reads. -/
private theorem length_joined_le (h : Step isLast before raw after) :
    (joined after).length ≤ (joined before).length + (raw.length + 1) := by
  have dropped : (Uri.dropBreaks raw).length ≤ raw.length :=
    (List.filter_sublist (p := fun c => !Uri.isBreak c)).length_le
  cases h with
  | broken _ found =>
    obtain ⟨letter, -, rfl⟩ := found.isDrive
    -- The letter, the colon and the break give way to two separators.
    have := found.shorter
    simp only [joined_cons, List.length_append, List.length_cons, List.length_nil]
    omega
  | dots kept _ =>
    refine Nat.le_trans (length_joined_close isLast _) ?_
    rcases kept with rfl | rfl
    · omega
    · have := length_joined_back before
      omega
  | drive _ hraw _ =>
    rw [hraw] at dropped
    simp only [joined_cons, joined_nil, List.length_append, List.length_cons,
      List.length_nil] at dropped ⊢
    omega
  | push =>
    simp only [joined_cons, List.length_append, List.length_cons]
    omega

/-- Without breaks, dots are never left as segments. -/
private theorem noDots (h : Step isLast before raw after)
    (unbroken : ∀ c ∈ raw, Uri.isBreak c = false)
    (none : ∀ d ∈ before, d ≠ ['.'] ∧ d ≠ ['.', '.']) :
    ∀ d ∈ after, d ≠ ['.'] ∧ d ≠ ['.', '.'] := by
  cases h with
  | broken _ found =>
    -- A drive is broken only by a break.
    obtain ⟨c, hc, breaks⟩ := found.broken
    rw [unbroken c hc] at breaks
    cases breaks
  | dots kept _ =>
    intro d hd
    rcases mem_close hd with rfl | hd
    · simp
    · rcases kept with rfl | rfl
      · exact none d hd
      · exact none d (back_subset _ hd)
  | drive =>
    intro d hd
    rw [List.mem_singleton.1 hd]
    simp
  | push single double =>
    intro d hd
    rcases List.mem_cons.1 hd with rfl | hd
    · exact ⟨single, double⟩
    · exact none d hd

end Step

/-! ## All segments -/

/-- What is left is empty, or a segment that was there. -/
theorem mem_dropEmptyStart {segments : List (List Char)} {d : List Char}
    (h : d ∈ Uri.dropEmptyStart segments) : d = [] ∨ d ∈ segments := by
  unfold Uri.dropEmptyStart at h
  split at h
  · exact .inl (List.mem_singleton.1 h)
  · exact .inr ((List.dropWhile_sublist List.isEmpty).subset h)

/-- A segment is always left. -/
private theorem dropEmptyStart_ne_nil (segments : List (List Char)) :
    Uri.dropEmptyStart segments ≠ [] := by
  unfold Uri.dropEmptyStart
  split
  · simp
  · assumption

/-- Dropping empty segments makes nothing longer than a separator. -/
private theorem length_joined_dropEmptyStart (segments : List (List Char)) :
    (joined (Uri.dropEmptyStart segments)).length ≤ max 1 (joined segments).length := by
  unfold Uri.dropEmptyStart
  split
  · exact Nat.le_max_left 1 _
  · obtain ⟨dropped, split⟩ := List.dropWhile_suffix (l := segments) List.isEmpty
    have length := congrArg (fun l => (joined l).length) split
    simp only [joined, List.flatMap_append, List.length_append] at length ⊢
    omega

/-- A path has a segment. -/
theorem segments_ne_nil (s : List Char) : segments s ≠ [] :=
  dropEmptyStart_ne_nil _

/-- What every step keeps holds for each segment, if it holds for the empty one. -/
private theorem segments_induction {motive : List Char → Prop} (s : List Char) (empty : motive [])
    (step : ∀ isLast before raw, raw ∈ Uri.pieces .file s → (∀ d ∈ before, motive d) →
      ∀ after, Step isLast before raw after → ∀ d ∈ after, motive d) :
    ∀ d ∈ segments s, motive d := by
  intro d hd
  rcases mem_dropEmptyStart hd with rfl | hd
  · exact empty
  · exact advanceAll_induction (motive := fun segments => ∀ d ∈ segments, motive d) step (by simp) d
      (List.mem_reverse.1 hd)

/-- The segments of a path can be segments. -/
theorem isSegment_segments (s : List Char) : ∀ d ∈ segments s, IsSegment d :=
  segments_induction s isSegment_nil fun _ _ _ hraw before _ h =>
    h.isSegment (fun c hc => (mem_of_mem_pieces hraw c hc).2) before

/-- Without breaks, no dots are left as segments. -/
theorem noDots_segments {s : List Char} (unbroken : ∀ c ∈ s, Uri.isBreak c = false) :
    ∀ d ∈ segments s, d ≠ ['.'] ∧ d ≠ ['.', '.'] :=
  segments_induction s (by simp) fun _ _ _ hraw before _ h =>
    h.noDots (fun c hc => unbroken c (mem_of_mem_pieces hraw c hc).1) before

/-- All steps add at most as much as they read. -/
private theorem length_joined_advanceAll (before raws : List (List Char)) :
    (joined (advanceAll before raws)).length ≤ (joined before).length + (joined raws).length := by
  induction raws generalizing before with
  | nil => exact Nat.le_refl _
  | cons raw raws ih =>
    have rest := ih (advance raws.isEmpty before raw)
    -- One separator comes with each segment that is read.
    have first := (step_advance raws.isEmpty before raw).length_joined_le
    rw [advanceAll, joined_cons, List.length_append, List.length_cons]
    omega

/-- The segments of a path are no longer than the path. -/
theorem length_joined_segments (s : List Char) : (joined (segments s)).length ≤ s.length + 1 := by
  have walk := length_joined_advanceAll [] (Uri.pieces .file s)
  have kept := length_joined_dropEmptyStart (advanceAll [] (Uri.pieces .file s)).reverse
  rw [length_joined_reverse] at kept
  rw [joined_nil, List.length_nil, length_joined_pieces] at walk
  rw [segments]
  omega

/-! ## Segments that stay as they are -/

/-- Whether a segment is read as it is, unless it is a drive. -/
structure IsPlain (s : List Char) : Prop where
  unbroken : ∀ c ∈ s, Uri.isBreak c = false
  noDots : s ≠ ['.'] ∧ s ≠ ['.', '.']

/-- Where there are no breaks, none are dropped. -/
private theorem dropBreaks_of_unbroken {raw : List Char}
    (unbroken : ∀ c ∈ raw, Uri.isBreak c = false) : Uri.dropBreaks raw = raw := by
  rw [Uri.dropBreaks, List.filter_eq_self]
  intro c hc
  simp [unbroken c hc]

/-- Where there are no breaks, no drive is broken. -/
theorem afterBrokenDrive?_of_unbroken {raw : List Char}
    (unbroken : ∀ c ∈ raw, Uri.isBreak c = false) : Uri.afterBrokenDrive? raw = none := by
  cases found : Uri.afterBrokenDrive? raw with
  | none => rfl
  | some parts =>
    obtain ⟨c, hc, breaks⟩ := (brokenDrive_of_eq_some found).broken
    rw [unbroken c hc] at breaks
    cases breaks

/-- A segment that is not taken for something else is read as it is. -/
private theorem advance_of_isPlain {raw : List Char} (plain : IsPlain raw) (isLast : Bool)
    {before : List (List Char)}
    (drive : before = [] → Uri.isDrive raw = true → raw[1]? = some ':') :
    advance isLast before raw = raw :: before := by
  unfold advance
  rw [afterBrokenDrive?_of_unbroken plain.unbroken, ite_self,
    dropBreaks_of_unbroken plain.unbroken, if_neg plain.noDots.2, if_neg plain.noDots.1]
  dsimp only
  split
  · rename_i isFirst
    rw [Bool.and_eq_true, List.isEmpty_iff] at isFirst
    -- The mark is a colon already, so mending the drive changes nothing.
    obtain ⟨rfl, isDrive⟩ := isFirst
    have colon := drive rfl isDrive
    obtain ⟨letter, mark, rfl, -, -⟩ := isDrive_eq isDrive
    rw [Option.some.inj colon]
    rfl
  · rfl

/-- A drive with either mark is read as one with a colon. -/
private theorem advance_drive {raw : List Char} (plain : IsPlain raw)
    (drive : Uri.isDrive raw = true)
    (isLast : Bool) : advance isLast [] raw = [raw.take 1 ++ [':']] := by
  unfold advance
  rw [afterBrokenDrive?_of_unbroken plain.unbroken, ite_self,
    dropBreaks_of_unbroken plain.unbroken, if_neg plain.noDots.2, if_neg plain.noDots.1]
  simp [drive]

/-- Such segments are read one after the other. -/
private theorem advanceAll_of_isPlain {before raws : List (List Char)}
    (plain : ∀ raw ∈ raws, IsPlain raw)
    (drive : before = [] → ∀ raw ∈ raws.head?, Uri.isDrive raw = true → raw[1]? = some ':') :
    advanceAll before raws = raws.reverse ++ before := by
  induction raws generalizing before with
  | nil => rfl
  | cons raw raws ih =>
    -- Only the first segment can be a drive, as none is read before it.
    rw [advanceAll, advance_of_isPlain (plain raw (by simp)) _ fun empty => drive empty raw rfl,
      ih (fun r hr => plain r (List.mem_cons_of_mem raw hr)) (by simp), List.reverse_cons,
      List.append_assoc]
    rfl

/-- The segments of a path are its pieces, if it has none that are taken for something else. -/
theorem segments_eq_pieces {s : List Char} (plain : ∀ raw ∈ Uri.pieces .file s, IsPlain raw)
    (drive : ∀ raw ∈ (Uri.pieces .file s).head?, Uri.isDrive raw = true → raw[1]? = some ':')
    (start : s = [] ∨ ∀ raw ∈ (Uri.pieces .file s).head?, raw ≠ []) :
    segments s = Uri.pieces .file s := by
  rw [segments, advanceAll_of_isPlain plain fun _ => drive, List.append_nil, List.reverse_reverse]
  rcases start with rfl | start
  · rfl
  · obtain ⟨piece, others, hs⟩ := exists_pieces s
    rw [hs] at start ⊢
    have nonempty : ¬ piece.isEmpty = true := by
      rw [List.isEmpty_iff]
      exact start piece rfl
    rw [Uri.dropEmptyStart, List.dropWhile_cons_of_neg nonempty]

/-- The first segment of a path that starts with a drive is the drive, whatever its mark. -/
theorem segments_of_drive {s : List Char} (plain : ∀ raw ∈ Uri.pieces .file s, IsPlain raw)
    (drive : ∀ raw ∈ (Uri.pieces .file s).head?, Uri.isDrive raw = true) :
    ∃ letter others, letter.isAlpha = true ∧ segments s = [letter, ':'] :: others := by
  obtain ⟨first, others, hs⟩ := exists_pieces s
  rw [hs] at plain drive
  have isDrive := drive first rfl
  obtain ⟨letter, mark, rfl, isLetter, -⟩ := isDrive_eq isDrive
  refine ⟨letter, others, isLetter, ?_⟩
  rw [segments, hs, advanceAll, advance_drive (plain _ (by simp)) isDrive,
    advanceAll_of_isPlain (fun raw hraw => plain raw (List.mem_cons_of_mem _ hraw)) (by simp),
    List.reverse_append, List.reverse_reverse]
  rfl

end ProjectFile.LocalPath
