import ProjectFile.Proofs.Location.Walk

/-!
# The URI of a local path

The path of a URI is read in its encoded form.  Dots and drives look the same in the encoded form of
a local path as in the path, so the walk over the one follows the walk over the other, and the URI
of a local path is that of the segments which the path names.

## Key results

- `LocalPath.segments_segment`: a step of the walk over encoded segments is one over plain segments
- `LocalPath.ofLocalPath_eq_ok_iff`: the URI of a local path is that of its segments
- `LocalPath.localPath?_ofSegments`: the local path of that URI is the segments, each after a
  separator
-/

namespace ProjectFile

open ProjectFile.Text

namespace LocalPath

/-! ## Percent signs -/

/-- A percent sign is encoded, and any other character stays. -/
private theorem encodePercent_cons (c : Char) (s : List Char) :
    encodePercent (c :: s) = (if c = '%' then "%25".toList else [c]) ++ encodePercent s := by
  rw [encodePercent, encodePercent, List.flatMap_cons]

/-- Percent signs are encoded one by one. -/
private theorem encodePercent_append (s t : List Char) :
    encodePercent (s ++ t) = encodePercent s ++ encodePercent t :=
  List.flatMap_append

/-- Breaks are dropped one by one. -/
private theorem dropBreaks_append (s t : List Char) :
    Uri.dropBreaks (s ++ t) = Uri.dropBreaks s ++ Uri.dropBreaks t :=
  List.filter_append s t

/-- A break is dropped, and any other character stays. -/
private theorem dropBreaks_singleton {c : Char} :
    Uri.dropBreaks [c] = if Uri.isBreak c then [] else [c] := by
  cases breaks : Uri.isBreak c <;> simp [Uri.dropBreaks, breaks]

/-- Breaks can be dropped before percent signs are encoded, or after. -/
private theorem dropBreaks_encodePercent (s : List Char) :
    Uri.dropBreaks (encodePercent s) = encodePercent (Uri.dropBreaks s) := by
  induction s with
  | nil => rfl
  | cons c s ih =>
    have first : Uri.dropBreaks (c :: s) = Uri.dropBreaks [c] ++ Uri.dropBreaks s :=
      dropBreaks_append [c] s
    rw [encodePercent_cons, dropBreaks_append, ih, first, encodePercent_append]
    congr 1
    by_cases percent : c = '%'
    · subst percent
      decide
    · rw [if_neg percent, dropBreaks_singleton]
      split
      · rfl
      · simp [encodePercent, percent]

/-- Breaks at the start can be skipped before percent signs are encoded, or after. -/
private theorem skipBreaks_encodePercent (s : List Char) :
    Uri.skipBreaks (encodePercent s) = encodePercent (Uri.skipBreaks s) := by
  induction s with
  | nil => rfl
  | cons c s ih =>
    by_cases breaks : Uri.isBreak c = true
    · -- A break is no percent sign, so it is skipped in either text.
      have other : c ≠ '%' := by
        rintro rfl
        exact absurd breaks (by decide)
      rw [encodePercent_cons, if_neg other, Uri.skipBreaks, Uri.skipBreaks, List.singleton_append,
        List.dropWhile_cons_of_pos breaks, List.dropWhile_cons_of_pos breaks]
      exact ih
    · rw [Uri.skipBreaks, Uri.skipBreaks, List.dropWhile_cons_of_neg breaks, encodePercent_cons]
      by_cases percent : c = '%'
      · rw [if_pos percent]
        rfl
      · rw [if_neg percent, List.singleton_append, List.dropWhile_cons_of_neg breaks]

/-- Nothing that is encoded vanishes. -/
private theorem encodePercent_eq_nil_iff {s : List Char} : encodePercent s = [] ↔ s = [] := by
  cases s with
  | nil => simp [encodePercent]
  | cons c s =>
    rw [encodePercent_cons]
    split <;> simp

/-- No break comes to stand at the start, and none goes, when percent signs are encoded. -/
private theorem isBreak_head?_encodePercent (s : List Char) :
    (encodePercent s).head?.map Uri.isBreak = s.head?.map Uri.isBreak := by
  cases s with
  | nil => rfl
  | cons c s =>
    rw [encodePercent_cons]
    split
    · rename_i percent
      subst percent
      rfl
    · rfl

/-- A broken drive is taken to be one whether percent signs are encoded or not. -/
private theorem afterBrokenDrive?_encodePercent (s : List Char) :
    Uri.afterBrokenDrive? (encodePercent s) =
      (Uri.afterBrokenDrive? s).map fun (drive, after) => (drive, encodePercent after) := by
  have nonempty (t : List Char) : (encodePercent t != []) = (t != []) := by
    rw [Bool.eq_iff_iff, bne_iff_ne, bne_iff_ne, ne_eq, encodePercent_eq_nil_iff]
  unfold Uri.afterBrokenDrive?
  rw [skipBreaks_encodePercent]
  cases Uri.skipBreaks s with
  | nil => rfl
  | cons letter rest =>
    rw [encodePercent_cons]
    by_cases percent : letter = '%'
    · subst percent
      have noLetter : '%'.isAlpha = false := by decide
      have encoded : (if '%' = '%' then "%25".toList else ['%']) ++ encodePercent rest =
          '%' :: '2' :: '5' :: encodePercent rest := rfl
      rw [encoded]
      -- A percent sign is no letter, whatever it is encoded as.
      simp only [noLetter, Bool.false_and, Bool.false_eq_true, if_false]
      cases Uri.skipBreaks rest <;> split <;> rfl
    · rw [if_neg percent, List.singleton_append]
      simp only [skipBreaks_encodePercent]
      cases Uri.skipBreaks rest with
      | nil => rfl
      | cons mark rest =>
        rw [encodePercent_cons]
        by_cases percent : mark = '%'
        · subst percent
          simp
        · rw [if_neg percent, List.singleton_append]
          simp only [isBreak_head?_encodePercent, dropBreaks_encodePercent, nonempty]
          split <;> rfl

/-! ## The walk over encoded segments -/

/-- The encoded form of a segment can be a segment. -/
theorem isSegment_spell {s : List Char} (h : IsSegment s) : IsSegment (spell s) := by
  intro c hc
  have pure (e : Char) (separates : IsSeparator e) (other : e ≠ '%')
      (noDigit : ∀ n < 16, e ≠ Uri.upperHexDigit n) : c ≠ e := by
    rintro rfl
    exact (h c (mem_of_mem_spell other noDigit hc)).1 separates
  refine ⟨?_, isBreak_of_mem_spell hc⟩
  rintro (slash | backslash)
  · exact pure '/' (.inl rfl) (by decide) (by decide) slash
  · exact pure '\\' (.inr rfl) (by decide) (by decide) backslash

/-- An encoded segment starts with a drive exactly if the segment is one. -/
private theorem startsWithDrive_spell {s : List Char} (h : IsSegment s) :
    Uri.startsWithDrive (spell s) = Uri.isDrive s := by
  rw [← isDrive_spell]
  match hs : spell s with
  | [] => rfl
  | [_] => rfl
  | [_, _] => rfl
  | letter :: mark :: c :: rest =>
    have mem : c ∈ spell s := by simp [hs]
    -- A third character is neither a separator nor an end of the path, so it belongs to the
    -- segment.
    have inside : ("/\\?#".toList.contains c) = false := by
      have plain := pathSet_of_mem_spell mem
      have pure := (isSegment_spell h c mem).1
      have slash : c ≠ '/' := fun same => pure (.inl same)
      have backslash : c ≠ '\\' := fun same => pure (.inr same)
      have query : c ≠ '?' := by rintro rfl; exact absurd plain (by decide)
      have fragment : c ≠ '#' := by rintro rfl; exact absurd plain (by decide)
      simp [slash, backslash, query, fragment]
    rw [Uri.startsWithDrive, inside, Bool.and_false]
    rfl

/-- Taking back a segment takes back its encoded form. -/
private theorem pop_segments {w : Uri.Walk} {segments : List (List Char)}
    (h : w.segments = segments.map spell) (valid : ∀ d ∈ segments, IsSegment d) :
    w.pop.segments = (back segments).map spell := by
  unfold Uri.Walk.pop
  cases segments with
  | nil => rw [h]; exact h
  | cons last before =>
    rw [h, List.map_cons]
    simp only [startsWithDrive_spell (valid last (by simp)), back]
    split
    · exact h
    · rfl

/-- A step of the walk over encoded segments is one over plain segments. -/
theorem segments_segment {w : Uri.Walk} {segments : List (List Char)}
    (h : w.segments = segments.map spell) (valid : ∀ d ∈ segments, IsSegment d) (isLast : Bool)
    (raw : List Char) :
    (w.segment .file isLast (encodePercent raw)).segments =
      (advance isLast segments raw).map spell := by
  have first : w.segments.isEmpty = segments.isEmpty := by rw [h, List.isEmpty_map]
  have segment : Uri.encode Uri.pathSet (Uri.dropBreaks (encodePercent raw)) =
      spell (Uri.dropBreaks raw) := by
    rw [dropBreaks_encodePercent, spell]
  unfold Uri.Walk.segment advance
  simp only [first, segment, afterBrokenDrive?_encodePercent, isDoubleDot_spell,
    isSingleDot_spell, isDrive_spell, beq_self_eq_true, Bool.true_and]
  have found : (if segments.isEmpty = true then
        (Uri.afterBrokenDrive? raw).map fun x => (x.1, encodePercent x.2) else none) =
      (if segments.isEmpty = true then Uri.afterBrokenDrive? raw else none).map
        fun x => (x.1, encodePercent x.2) := by
    split <;> rfl
  -- Both walks find a broken drive, or both go on to the segment as a whole.
  rw [found]
  cases hfound : if segments.isEmpty = true then Uri.afterBrokenDrive? raw else none with
  | some parts =>
    obtain ⟨drive, after⟩ := parts
    have isDrive : spell drive = drive := by
      split at hfound
      · obtain ⟨letter, isLetter, rfl⟩ := (brokenDrive_of_eq_some hfound).isDrive
        exact spell_of_isDrive (by simp [Uri.isDrive, isLetter])
      · simp at hfound
    have encoded : Uri.encode Uri.pathSet (encodePercent after) = spell after := rfl
    simp only [Option.map_some, Uri.Walk.push, List.map_cons, h, isDrive, encoded]
  | none =>
    simp only [Option.map_none]
    split
    · have popped := pop_segments h valid
      unfold close
      split
      · simp [Uri.Walk.push, popped]
      · exact popped
    split
    · unfold close
      split
      · simp [Uri.Walk.push, h]
      · exact h
    split
    · rename_i isFirst
      rw [Bool.and_eq_true] at isFirst
      obtain ⟨letter, mark, hraw, isLetter, -⟩ := isDrive_eq isFirst.2
      have asIs : spell [letter, ':'] = [letter, ':'] :=
        spell_of_isDrive (by simp [Uri.isDrive, isLetter])
      have drive : spell (Uri.dropBreaks raw) = Uri.dropBreaks raw := spell_of_isDrive isFirst.2
      rw [drive, hraw]
      simp [asIs]
    · simp [Uri.Walk.push, h]

/-- The walk over encoded segments is the one over plain segments. -/
private theorem segments_run {w : Uri.Walk} {segments : List (List Char)}
    (h : w.segments = segments.map spell) (valid : ∀ d ∈ segments, IsSegment d)
    {raws : List (List Char)} (pure : ∀ raw ∈ raws, ∀ c ∈ raw, ¬ IsSeparator c) :
    (w.run .file (raws.map encodePercent)).segments = (advanceAll segments raws).map spell := by
  -- The last segment is the one with none behind it, in both walks.
  induction raws generalizing w segments with
  | nil => exact h
  | cons raw raws ih =>
    rw [List.map_cons, Uri.Walk.run, advanceAll, List.isEmpty_map]
    refine ih (segments_segment h valid _ raw) ?_ fun r hr => pure r (List.mem_cons_of_mem raw hr)
    exact (step_advance _ _ _).isSegment (pure raw (by simp)) valid

/-- The pieces of a text with encoded percent signs are its pieces, encoded. -/
private theorem pieces_encodePercent (s : List Char) :
    Uri.pieces .file (encodePercent s) = (Uri.pieces .file s).map encodePercent := by
  induction s using pieces_induction with
  | nil => rfl
  | separator c s hc ih =>
    -- A separator is no percent sign, so it separates the same pieces.
    have other : c ≠ '%' := by
      rintro rfl
      exact absurd hc (by decide)
    rw [encodePercent_cons, if_neg other, List.singleton_append, pieces_cons_of_isSeparator hc, ih]
    rfl
  | other c s piece others hc ih =>
    -- Neither the character nor its encoded form has a separator.
    have pure : ∀ d ∈ (if c = '%' then "%25".toList else [c]), ¬ IsSeparator d := by
      split
      · simp [IsSeparator]
      · intro d hd
        rwa [List.mem_singleton.1 hd]
    rw [encodePercent_cons, pieces_append_of_not pure ih, List.map_cons, encodePercent_cons]

/-- An encoded segment is empty exactly if the segment is. -/
theorem dropEmptyStart_map_spell (segments : List (List Char)) :
    Uri.dropEmptyStart (segments.map spell) = (Uri.dropEmptyStart segments).map spell := by
  have empty : List.isEmpty ∘ spell = List.isEmpty := by
    funext s
    rw [Function.comp_apply, Bool.eq_iff_iff, List.isEmpty_iff, List.isEmpty_iff, spell_eq_nil_iff]
  unfold Uri.dropEmptyStart
  rw [List.dropWhile_map, empty]
  cases segments.dropWhile List.isEmpty <;> rfl

end LocalPath

/-! ## The URI of segments -/

/-- The file URI whose path has the given segments. -/
def Uri.ofSegments (segments : List (List Char)) : Uri where
  scheme := "file"
  authority := some { host := .name "" }
  path := .rooted (segments.map fun s => String.ofList (LocalPath.spell s))

/-- A file URI without a host has none, whether its path starts with a drive or not. -/
theorem Uri.filePath_eq (s : List Char) :
    Uri.filePath (.name "") s =
      { scheme := "file"
        authority := some { host := .name "" }
        path := .rooted ((Uri.dropEmptyStart
          (Uri.Walk.run .file {} (Uri.pieces .file s)).segments.reverse).map String.ofList) } := by
  simp [Uri.filePath, Uri.readSegments]

namespace LocalPath

/-- The URI of a path is that of its segments. -/
private theorem ofRootedPath_eq (s : List Char) :
    Uri.ofRootedPath ('/' :: s) = Uri.ofSegments (segments s) := by
  have root : (encodePercent ('/' :: s)).drop 1 = encodePercent s := rfl
  have pure : ∀ raw ∈ Uri.pieces .file s, ∀ c ∈ raw, ¬ IsSeparator c :=
    fun raw hraw c hc => (mem_of_mem_pieces hraw c hc).2
  have walk : ((Uri.Walk.run .file {} (Uri.pieces .file (encodePercent s))).segments) =
      (advanceAll [] (Uri.pieces .file s)).map spell := by
    rw [pieces_encodePercent]
    exact segments_run rfl (by simp) pure
  rw [Uri.ofRootedPath, root, Uri.filePath_eq, walk, ← List.map_reverse, dropEmptyStart_map_spell,
    List.map_map]
  rfl

/-- The root of a path is the one that it has, or is put before a drive. -/
theorem rooted?_eq_some {path rooted : List Char} (h : rooted? path = some rooted) :
    ∃ s, rooted = '/' :: s ∧ (path = '/' :: s ∨ path = s ∧ startsWithDrive path = true) := by
  unfold rooted? at h
  split at h
  · rename_i slash
    obtain ⟨s, hs⟩ := List.head?_eq_some_iff.1 slash
    exact ⟨s, by rw [← hs]; exact (Option.some.inj h).symm, .inl hs⟩
  · split at h
    · exact ⟨path, (Option.some.inj h).symm, .inr ⟨rfl, ‹_›⟩⟩
    · simp at h

/-- A local path has a URI if its canonical spelling is absolute; the URI is that of the segments
    after its root. -/
theorem ofLocalPath_eq_ok_iff {p : String} {u : Uri} :
    Uri.ofLocalPath p = .ok u ↔
      ∃ s, rooted? (normalize (trimChars p.toList)) = some ('/' :: s) ∧
        u = Uri.ofSegments (segments s) := by
  unfold Uri.ofLocalPath
  constructor
  · intro h
    simp only at h
    split at h
    · simp at h
    · split at h
      · rename_i rooted found
        obtain ⟨s, rfl, -⟩ := rooted?_eq_some found
        exact ⟨s, found, by rw [← ofRootedPath_eq]; exact (Except.ok.inj h).symm⟩
      · simp at h
  · rintro ⟨s, found, rfl⟩
    -- A path with a root is not empty.
    have nonempty : normalize (trimChars p.toList) ≠ [] := by
      intro empty
      rw [empty] at found
      simp [rooted?, startsWithDrive] at found
    simp only [if_neg nonempty, found, ofRootedPath_eq]

/-! ## The local path of the URI -/

/-- The path that segments are shown as.  A drive at the start is not rooted. -/
def display (segments : List (List Char)) : List Char :=
  if startsWithDrive ((joined segments).drop 1) then (joined segments).drop 1 else joined segments

/-- The path of the URI of segments is their encoded forms, each after a separator. -/
theorem toList_render_ofSegments (segments : List (List Char)) :
    (Uri.ofSegments segments).path.render.toList = joined (segments.map spell) := by
  rw [Uri.ofSegments, UriPath.render, String.toList_join, List.map_map, List.flatMap_map, joined,
    List.flatMap_map]
  simp

/-- Encoded segments are decoded to the bytes of the segments. -/
private theorem decodeBytes_joined_map_spell (segments : List (List Char)) :
    Uri.decodeBytes (joined (segments.map spell)) =
      (joined segments).flatMap String.utf8EncodeChar := by
  induction segments with
  | nil => exact Uri.decodeBytes_nil
  | cons segment others ih =>
    rw [List.map_cons, joined_cons, joined_cons, List.cons_append,
      Uri.decodeBytes_cons_of_ne (by decide), decodeBytes_spell_append, ih, List.cons_append,
      List.flatMap_cons, List.flatMap_append]

/-- The URI of segments always has a local path, which is what they are shown as. -/
theorem localPath?_ofSegments (segments : List (List Char)) :
    (Uri.ofSegments segments).localPath? = some (String.ofList (display segments)) := by
  have isLocal : (Uri.ofSegments segments).isLocal = true := rfl
  have decoded : Uri.decode? (Uri.ofSegments segments).path.render.toList =
      some (String.ofList (joined segments)) := by
    rw [toList_render_ofSegments, Uri.decode?, decodeBytes_joined_map_spell, ofBytes?_flatMap]
  unfold Uri.localPath? display
  rw [isLocal, decoded]
  cases segments with
  | nil => rfl
  | cons segment others =>
    have shown : (String.ofList (joined (segment :: others))).toList =
        '/' :: (segment ++ joined others) := String.toList_ofList
    -- Only a drive behind the root makes a difference to what is shown.
    simp only [guard, if_pos, Option.bind_eq_bind, Option.bind_some, Option.pure_def, shown]
    simp only [joined_cons, List.cons_append, List.drop_one, List.tail_cons]
    split <;> rfl

/-- Segments are written with a separator first. -/
theorem exists_joined {segments : List (List Char)} (h : segments ≠ []) :
    ∃ s, joined segments = '/' :: s := by
  cases segments with
  | nil => exact absurd rfl h
  | cons segment others => exact ⟨_, rfl⟩

/-- What segments are shown as starts with a separator, or with a drive where that is left out. -/
theorem joined_eq {segments : List (List Char)} (h : segments ≠ []) :
    joined segments = display segments ∨
      joined segments = '/' :: display segments ∧ startsWithDrive (display segments) = true := by
  obtain ⟨s, hs⟩ := exists_joined h
  unfold display
  rw [hs, List.drop_one, List.tail_cons]
  split
  · rename_i drive
    exact .inr ⟨rfl, drive⟩
  · exact .inl rfl

/-- A drive does not start with a separator. -/
theorem head?_ne_of_startsWithDrive {s : List Char} (h : startsWithDrive s = true) :
    s.head? ≠ some '/' := by
  obtain ⟨letter, rest, rfl, isLetter, -⟩ := startsWithDrive_iff.1 h
  intro slash
  obtain rfl := Option.some.inj slash
  exact absurd isLetter (by decide)

/-- Segments can be told from what they are written as. -/
private theorem joined_inj {segments others : List (List Char)} (nonempty : segments ≠ [])
    (nonempty' : others ≠ []) (valid : ∀ d ∈ segments, IsSegment d)
    (valid' : ∀ d ∈ others, IsSegment d) (h : joined segments = joined others) :
    segments = others := by
  obtain ⟨segment, rest, rfl⟩ := List.exists_cons_of_ne_nil nonempty
  obtain ⟨segment', rest', rfl⟩ := List.exists_cons_of_ne_nil nonempty'
  rw [joined_cons, joined_cons, List.cons_append, List.cons_append, List.cons_inj_right] at h
  rw [← pieces_joined valid, h, pieces_joined valid']

/-- Segments can be told from what they are shown as. -/
theorem display_inj {segments others : List (List Char)} (nonempty : segments ≠ [])
    (nonempty' : others ≠ []) (valid : ∀ d ∈ segments, IsSegment d)
    (valid' : ∀ d ∈ others, IsSegment d) (h : display segments = display others) :
    segments = others := by
  refine joined_inj nonempty nonempty' valid valid' ?_
  have root (l : List (List Char)) (hl : l ≠ []) : (joined l).head? = some '/' := by
    obtain ⟨s, hs⟩ := exists_joined hl
    rw [hs]
    rfl
  -- Both are shown from their drives on, or neither is.
  rcases joined_eq nonempty with shown | ⟨shown, drive⟩
  · rcases joined_eq nonempty' with shown' | ⟨-, drive'⟩
    · rw [shown, shown', h]
    · rw [← h, ← shown] at drive'
      exact absurd (root _ nonempty) (head?_ne_of_startsWithDrive drive')
  · rcases joined_eq nonempty' with shown' | ⟨shown', -⟩
    · rw [h, ← shown'] at drive
      exact absurd (root _ nonempty') (head?_ne_of_startsWithDrive drive)
    · rw [shown, shown', h]

end LocalPath

end ProjectFile
