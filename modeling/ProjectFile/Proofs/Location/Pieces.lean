import ProjectFile.Proofs.Location.Spelling

/-!
# Pieces of a path

The pieces of the path of a file URI are what stands between its separators.  Joined by one kind of
separator, the pieces of a text give the text again; and segments that are joined are the pieces of
what they give.

## Key results

- `LocalPath.joined_pieces`: the pieces of a text give the text again
- `LocalPath.pieces_joined`: segments are the pieces of what they are written as
-/

namespace ProjectFile.LocalPath

/-- Segments, each after a separator. -/
def joined (segments : List (List Char)) : List Char :=
  segments.flatMap ('/' :: ·)

/-- Whether a text can be a segment: it has no separators, and no breaks, which are passed over. -/
def IsSegment (s : List Char) : Prop :=
  ∀ c ∈ s, ¬ IsSeparator c ∧ Uri.isBreak c = false

/-- In file URIs both kinds of separators count. -/
private theorem isSeparator_file_iff {c : Char} :
    Uri.SchemeKind.file.isSeparator c = true ↔ IsSeparator c := by
  simp [Uri.SchemeKind.isSeparator, Uri.SchemeKind.isSpecial, IsSeparator]

/-- A separator ends an empty piece. -/
theorem pieces_cons_of_isSeparator {c : Char} (h : IsSeparator c) (s : List Char) :
    Uri.pieces .file (c :: s) = [] :: Uri.pieces .file s := by
  rw [Uri.pieces, if_pos (isSeparator_file_iff.2 h)]

/-- There is always a first piece, which may be empty. -/
theorem exists_pieces (s : List Char) : ∃ piece others, Uri.pieces .file s = piece :: others := by
  cases s with
  | nil => exact ⟨[], [], rfl⟩
  | cons c s =>
    unfold Uri.pieces
    split
    · exact ⟨_, _, rfl⟩
    · split <;> exact ⟨_, _, rfl⟩

/-- Any other character belongs to the first piece. -/
private theorem pieces_cons_of_not {c : Char} (h : ¬ IsSeparator c) {s piece : List Char}
    {others : List (List Char)} (hs : Uri.pieces .file s = piece :: others) :
    Uri.pieces .file (c :: s) = (c :: piece) :: others := by
  rw [Uri.pieces, if_neg (mt isSeparator_file_iff.1 h), hs]

/-- Induction on a text together with its pieces: a separator starts a new piece, and any other
    character goes to the front of the first one. -/
theorem pieces_induction {motive : List Char → List (List Char) → Prop}
    (nil : motive [] [[]])
    (separator : ∀ c s, IsSeparator c → motive s (Uri.pieces .file s) →
      motive (c :: s) ([] :: Uri.pieces .file s))
    (other : ∀ c s piece others, ¬ IsSeparator c → motive s (piece :: others) →
      motive (c :: s) ((c :: piece) :: others))
    (s : List Char) : motive s (Uri.pieces .file s) := by
  induction s with
  | nil => exact nil
  | cons c s ih =>
    by_cases h : IsSeparator c
    · rw [pieces_cons_of_isSeparator h]
      exact separator c s h ih
    · obtain ⟨piece, others, hs⟩ := exists_pieces s
      rw [pieces_cons_of_not h hs]
      exact other c s piece others h (hs ▸ ih)

/-- A piece has characters of the text only, and no separators. -/
theorem mem_of_mem_pieces {s piece : List Char} (h : piece ∈ Uri.pieces .file s) :
    ∀ c ∈ piece, c ∈ s ∧ ¬ IsSeparator c := by
  revert piece
  -- The induction goes over all pieces, so it is for every one of them.
  induction s using pieces_induction with
  | nil => simp
  | separator c s _ ih =>
    intro piece h d hd
    rcases List.mem_cons.1 h with rfl | h
    · simp at hd
    · exact ⟨List.mem_cons_of_mem c (ih h d hd).1, (ih h d hd).2⟩
  | other c s first others hc ih =>
    intro piece h d hd
    rcases List.mem_cons.1 h with rfl | h
    · rcases List.mem_cons.1 hd with rfl | hd
      · exact ⟨by simp, hc⟩
      · have inside := ih (List.mem_cons_self) d hd
        exact ⟨List.mem_cons_of_mem c inside.1, inside.2⟩
    · have inside := ih (List.mem_cons_of_mem first h) d hd
      exact ⟨List.mem_cons_of_mem c inside.1, inside.2⟩

/-- No segments are written as nothing. -/
theorem joined_nil : joined [] = [] := rfl

/-- The first segment is written behind a separator. -/
theorem joined_cons (segment : List Char) (others : List (List Char)) :
    joined (segment :: others) = '/' :: segment ++ joined others := rfl

/-- The order of segments does not matter for how long they are. -/
theorem length_joined_reverse (segments : List (List Char)) :
    (joined segments.reverse).length = (joined segments).length :=
  ((List.reverse_perm segments).flatMap_right _).length_eq

/-- The pieces of a text, each after a separator, are the text after a separator. -/
theorem joined_pieces {s : List Char} (h : '\\' ∉ s) : joined (Uri.pieces .file s) = '/' :: s := by
  induction s using pieces_induction with
  | nil => rfl
  | separator c s hc ih =>
    rw [List.mem_cons, not_or] at h
    obtain ⟨other, rest⟩ := h
    rw [joined_cons, ih rest, hc.resolve_right (Ne.symm other)]
    rfl
  | other c s piece others hc ih =>
    have rest := List.not_mem_of_not_mem_cons h
    have same := ih rest
    rw [joined_cons, List.cons_append, List.cons_inj_right] at same ⊢
    rw [List.cons_append, same]

/-- All characters of a text are in its pieces or separate them. -/
theorem length_joined_pieces (s : List Char) :
    (joined (Uri.pieces .file s)).length = s.length + 1 := by
  induction s using pieces_induction with
  | nil => rfl
  | separator c s hc ih => rw [joined_cons, List.length_append, ih]; simp; omega
  | other c s piece others hc ih =>
    rw [joined_cons, List.length_append] at ih ⊢
    simp only [List.length_cons] at ih ⊢
    omega

/-- The pieces are what splitting gives, at whatever is a separator in the text. -/
theorem pieces_eq_splitOnP {p : Char → Bool} {s : List Char}
    (h : ∀ c ∈ s, p c = true ↔ IsSeparator c) : Uri.pieces .file s = s.splitOnP p := by
  induction s using pieces_induction with
  | nil => rfl
  | separator c s hc ih =>
    have rest := ih fun d hd => h d (List.mem_cons_of_mem c hd)
    rw [List.splitOnP_cons_eq_if_modifyHead, if_pos ((h c List.mem_cons_self).2 hc), rest]
  | other c s piece others hc ih =>
    have rest := ih fun d hd => h d (List.mem_cons_of_mem c hd)
    have other : ¬ p c = true := mt (h c List.mem_cons_self).1 hc
    rw [List.splitOnP_cons_eq_if_modifyHead, if_neg other, ← rest, List.modifyHead_cons]

/-- Without backslashes, the pieces are what stands between the slashes. -/
theorem pieces_eq_splitOn {s : List Char} (h : '\\' ∉ s) :
    Uri.pieces .file s = s.splitOn '/' := by
  refine pieces_eq_splitOnP fun c hc => ?_
  have noBackslash : c ≠ '\\' := fun same => h (same ▸ hc)
  simp [IsSeparator, noBackslash]

/-- The first piece is what comes before the first separator. -/
theorem head?_pieces {s : List Char} (h : '\\' ∉ s) :
    (Uri.pieces .file s).head? = some (s.takeWhile (· != '/')) := by
  induction s using pieces_induction with
  | nil => rfl
  | separator c s hc _ =>
    rw [List.mem_cons, not_or] at h
    obtain rfl := hc.resolve_right (Ne.symm h.1)
    rfl
  | other c s piece others hc ih =>
    have same := ih (List.not_mem_of_not_mem_cons h)
    have other : (c != '/') = true := bne_iff_ne.2 fun slash => hc (.inl slash)
    rw [List.head?_cons, Option.some.injEq] at same ⊢
    rw [same]
    exact (List.takeWhile_cons_of_pos (p := (· != '/')) other).symm

/-- A text without separators goes to the front of the first piece. -/
theorem pieces_append_of_not {t : List Char} (h : ∀ c ∈ t, ¬ IsSeparator c) {s piece : List Char}
    {others : List (List Char)} (hs : Uri.pieces .file s = piece :: others) :
    Uri.pieces .file (t ++ s) = (t ++ piece) :: others := by
  induction t with
  | nil => exact hs
  | cons c t ih => exact pieces_cons_of_not (h c (by simp)) (ih fun d hd => h d (by simp [hd]))

/-- A segment is its only piece. -/
private theorem pieces_of_isSegment {s : List Char} (h : IsSegment s) :
    Uri.pieces .file s = [s] := by
  have nothing : Uri.pieces .file [] = [[]] := rfl
  have pieces := pieces_append_of_not (fun c hc => (h c hc).1) nothing
  rwa [List.append_nil] at pieces

/-- A segment that is followed by a separator is the first piece. -/
private theorem pieces_append_slash {s : List Char} (h : IsSegment s) (t : List Char) :
    Uri.pieces .file (s ++ '/' :: t) = s :: Uri.pieces .file t := by
  have pieces := pieces_append_of_not (fun c hc => (h c hc).1)
    (pieces_cons_of_isSeparator (.inl rfl) t)
  rwa [List.append_nil] at pieces

/-- Segments are the pieces of what they are written as. -/
theorem pieces_joined {segment : List Char} {others : List (List Char)}
    (h : ∀ d ∈ segment :: others, IsSegment d) :
    Uri.pieces .file (segment ++ joined others) = segment :: others := by
  induction others generalizing segment with
  | nil =>
    rw [joined_nil, List.append_nil, pieces_of_isSegment (h segment (by simp))]
  | cons next others ih =>
    rw [joined_cons, List.cons_append, pieces_append_slash (h segment (by simp)),
      ih fun d hd => h d (List.mem_cons_of_mem _ hd)]

/-! ## Texts that can be segments -/

/-- A segment may be empty. -/
theorem isSegment_nil : IsSegment [] := by
  intro c h
  simp at h

/-- A drive can be a segment. -/
theorem isSegment_drive {letter : Char} (h : letter.isAlpha = true) : IsSegment [letter, ':'] := by
  have noBreak : Uri.isBreak letter = false := by
    by_contra breaks
    simp only [Uri.isBreak, Bool.not_eq_false, Bool.or_eq_true, beq_iff_eq] at breaks
    rcases breaks with (rfl | rfl) | rfl <;> exact absurd h (by decide)
  intro c hc
  rcases List.mem_cons.1 hc with rfl | hc
  · exact ⟨not_isSeparator_of_isAlpha h, noBreak⟩
  · rw [List.mem_singleton.1 hc]
    decide

/-- A text without separators can be a segment, once its breaks are dropped. -/
theorem isSegment_dropBreaks {raw : List Char} (pure : ∀ c ∈ raw, ¬ IsSeparator c) :
    IsSegment (Uri.dropBreaks raw) := by
  intro c hc
  rw [Uri.dropBreaks, List.mem_filter] at hc
  exact ⟨pure c hc.1, by simpa using hc.2⟩

end ProjectFile.LocalPath
