import ProjectFile.Proofs.Location.Segments
import ProjectFile.Proofs.Uri.Margin

/-!
# The written form of the URI of a local path

The URI of a local path is written with nothing but its path, in which no character stands that a
URI would not have there.  Where it is parsed, its segments are walked over again, this time behind
an empty one, so that none of them is a drive.  Encoded text stays as it is, but dots are taken
back, if there are any.

## Key results

- `LocalPath.parse_render`: what the written form is parsed as
- `LocalPath.ofText_render_iff`: it is read as the same URI exactly if no segment is dots
- `LocalPath.noDots_of_unbroken`: only a path with a tab or line break has a URI with such a segment
-/

namespace ProjectFile

open ProjectFile.Text

namespace LocalPath

/-! ## The parts of the written form -/

/-- The written form: the scheme, an empty host, and the encoded segments. -/
private theorem toList_render (segments : List (List Char)) :
    (Uri.ofSegments segments).render.toList = "file://".toList ++ joined (segments.map spell) := by
  rw [← toList_render_ofSegments]
  simp [Uri.render, Authority.render, Host.render, Uri.ofSegments]

/-- No character in it would have to be encoded. -/
private theorem mem_joined_map_spell {segments : List (List Char)} {c : Char}
    (h : c ∈ joined (segments.map spell)) : Uri.pathSet c = false := by
  obtain ⟨_, mem, hc⟩ := List.mem_flatMap.1 h
  obtain ⟨d, -, rfl⟩ := List.mem_map.1 mem
  rcases List.mem_cons.1 hc with rfl | hc
  · decide
  · exact pathSet_of_mem_spell hc

/-- All characters of the written form are ASCII. -/
private theorem isAscii_render_ofSegments (segments : List (List Char)) :
    IsAscii (Uri.ofSegments segments).render.toList := by
  rw [toList_render]
  refine IsAscii.append (by simp [IsAscii]) fun c hc => ?_
  obtain ⟨_, mem, hc⟩ := List.mem_flatMap.1 hc
  obtain ⟨d, -, rfl⟩ := List.mem_map.1 mem
  rcases List.mem_cons.1 hc with rfl | hc
  · decide
  · exact isAscii_spell d c hc

/-- Nothing around the written form is dropped. -/
private theorem trimMargin_render (segments : List (List Char)) :
    Uri.trimMargin (Uri.ofSegments segments).render.toList =
      (Uri.ofSegments segments).render.toList := by
  have bare : ∀ c ∈ (Uri.ofSegments segments).render.toList, ¬ Uri.isMargin c = true := by
    intro c hc margin
    rw [toList_render] at hc
    rcases List.mem_append.1 hc with hc | hc
    · have all : ∀ c ∈ "file://".toList, ¬ Uri.isMargin c = true := by simp [Uri.isMargin]
      exact all c hc margin
    · -- In the path all such characters are encoded.
      have encoded : ∀ n ≤ 0x20, Uri.pathSet (Char.ofNat n) = true := by decide
      have margins := encoded c.toNat (by simpa [Uri.isMargin] using margin)
      rw [Char.ofNat_toNat, mem_joined_map_spell hc] at margins
      cases margins
  have whole (t : List Char) (h : ∀ c ∈ t, ¬ Uri.isMargin c = true) :
      t.dropWhile Uri.isMargin = t := by
    cases t with
    | nil => rfl
    | cons c t => exact List.dropWhile_cons_of_neg (h c (by simp))
  rw [Uri.trimMargin, whole _ bare, whole _ fun c hc => bare c (List.mem_reverse.1 hc),
    List.reverse_reverse]

/-- Behind three slashes the host is empty, and the path starts with the last one. -/
private theorem readFileBody_slashes [Uri.DomainNames] (path : List Char) :
    Uri.readFileBody ('/' :: '/' :: '/' :: path) = .ok (Uri.filePath (.name "") ('/' :: path)) := by
  have host : Uri.readFileAuthority ('/' :: path) =
      .ok (Uri.filePath (.name "") ('/' :: path)) := by
    unfold Uri.readFileAuthority
    rfl
  exact host

/-- The written form is read as a path behind an empty segment. -/
theorem parse_render [Uri.DomainNames] {segments : List (List Char)} (h : segments ≠ []) :
    Uri.parse (Uri.ofSegments segments).render =
      .ok (Uri.filePath (.name "") (joined (segments.map spell))) := by
  have nonempty : segments.map spell ≠ [] := by simpa using h
  obtain ⟨path, hpath⟩ := exists_joined nonempty
  have inside : ∀ c ∈ '/' :: '/' :: joined (segments.map spell), Uri.inPath c = true := by
    intro c hc
    have plain : Uri.pathSet c = false := by
      rcases List.mem_cons.1 hc with rfl | hc
      · decide
      rcases List.mem_cons.1 hc with rfl | hc
      · decide
      · exact mem_joined_map_spell hc
    have query : c ≠ '?' := by rintro rfl; exact absurd plain (by decide)
    have fragment : c ≠ '#' := by rintro rfl; exact absurd plain (by decide)
    simp [Uri.inPath, query, fragment]
  have scheme : (("file://".toList ++ joined (segments.map spell)).takeWhile (· != ':')) =
      "file".toList := rfl
  have rest : (("file://".toList ++ joined (segments.map spell)).dropWhile (· != ':')) =
      ':' :: '/' :: '/' :: joined (segments.map spell) := rfl
  have isFile : Uri.scheme? (Uri.dropBreaks "file".toList) = some "file" := by decide
  have body : ('/' :: '/' :: joined (segments.map spell)).takeWhile Uri.inPath =
      '/' :: '/' :: joined (segments.map spell) := List.takeWhile_eq_self_iff.2 inside
  have ending : ('/' :: '/' :: joined (segments.map spell)).dropWhile Uri.inPath = [] :=
    List.dropWhile_eq_nil_iff.2 inside
  have read : Uri.readBody "file" false ('/' :: '/' :: joined (segments.map spell)) =
      .ok (Uri.filePath (.name "") (joined (segments.map spell))) := by
    rw [hpath]
    exact readFileBody_slashes path
  -- The scheme ends at the colon, and no query and no fragment follow the path.
  unfold Uri.parse
  rw [trimMargin_render, toList_render]
  simp only [scheme, rest, isFile, body, ending, List.isEmpty_nil, Bool.not_true, read]
  rfl

/-! ## The walk behind an empty segment -/

/-- Whether an encoded segment is dots. -/
def IsDots (segment : List Char) : Prop :=
  Uri.isSingleDot segment = true ∨ Uri.isDoubleDot segment = true

/-- An empty segment is not dots. -/
private theorem not_isDots_nil : ¬ IsDots [] := by
  rintro (dot | dots) <;> exact absurd ‹_› (by decide)

/-- An encoded segment is dots exactly if the segment is, as percent signs are encoded in it. -/
private theorem isDots_spell_iff {s : List Char} : IsDots (spell s) ↔ s = ['.'] ∨ s = ['.', '.'] :=
  or_congr isSingleDot_spell isDoubleDot_spell

/-- A segment that is encoded already stays as it is. -/
private theorem encode_segment {s : List Char} :
    Uri.encode Uri.pathSet (Uri.dropBreaks (spell s)) = spell s := by
  rw [dropBreaks_spell, encode_spell]

/-- An encoded segment has no breaks, so no drive is broken in it. -/
private theorem afterBrokenDrive?_spell (s : List Char) : Uri.afterBrokenDrive? (spell s) = none :=
  afterBrokenDrive?_of_unbroken fun _ hc => isBreak_of_mem_spell hc

/-- No step leaves dots as a segment, as long as no drive is broken. -/
private theorem not_isDots_segment {w : Uri.Walk} (h : ∀ d ∈ w.segments, ¬ IsDots d) (isLast : Bool)
    (s : List Char) :
    ∀ d ∈ (w.segment .file isLast (spell s)).segments, ¬ IsDots d := by
  -- An empty segment at the end is not dots, and taking one back adds none.
  have closed (v : Uri.Walk) (hv : ∀ d ∈ v.segments, ¬ IsDots d) :
      ∀ d ∈ (if isLast then v.push [] else v).segments, ¬ IsDots d := by
    split
    · intro d hd
      rcases List.mem_cons.1 hd with rfl | hd
      · exact not_isDots_nil
      · exact hv d hd
    · exact hv
  have popped : ∀ d ∈ w.pop.segments, ¬ IsDots d := by
    unfold Uri.Walk.pop
    split
    · exact h
    · rename_i last before hw
      split
      · exact h
      · exact fun d hd => h d (hw ▸ List.mem_cons_of_mem last hd)
  unfold Uri.Walk.segment
  simp only [encode_segment, afterBrokenDrive?_spell, ite_self]
  split
  · exact closed _ popped
  split
  · exact closed _ h
  split
  · -- A drive is mended, and a letter with a colon is not dots.
    rename_i isDrive
    rw [Bool.and_eq_true] at isDrive
    obtain ⟨letter, mark, drive, isLetter, -⟩ := isDrive_eq isDrive.2
    have asIs : spell [letter, ':'] = [letter, ':'] :=
      spell_of_isDrive (by simp [Uri.isDrive, isLetter])
    intro d hd
    rw [List.mem_singleton.1 hd, drive, List.take_succ_cons, List.take_zero, List.singleton_append,
      ← asIs, isDots_spell_iff]
    simp
  · intro d hd
    rcases List.mem_cons.1 hd with rfl | hd
    · rintro (dot | dots) <;> contradiction
    · exact h d hd

/-- No dots are left by the walk over encoded segments. -/
private theorem not_isDots_run {w : Uri.Walk} (h : ∀ d ∈ w.segments, ¬ IsDots d)
    (segments : List (List Char)) :
    ∀ d ∈ (w.run .file (segments.map spell)).segments, ¬ IsDots d := by
  induction segments generalizing w with
  | nil => exact h
  | cons segment others ih => exact ih (not_isDots_segment h _ segment)

/-- Behind other segments, encoded text is read as it is, unless it is dots. -/
private theorem run_spell {w : Uri.Walk} (nonempty : w.segments ≠ []) {segments : List (List Char)}
    (h : ∀ s ∈ segments, s ≠ ['.'] ∧ s ≠ ['.', '.']) :
    (w.run .file (segments.map spell)).segments = (segments.map spell).reverse ++ w.segments := by
  induction segments generalizing w with
  | nil => rfl
  | cons segment others ih =>
    obtain ⟨dot, dots⟩ := h segment (by simp)
    have behind : w.segments.isEmpty = false := by simpa using nonempty
    have step : w.segment .file (others.map spell).isEmpty (spell segment) =
        w.push (spell segment) := by
      unfold Uri.Walk.segment
      simp [encode_segment, behind, isDoubleDot_spell, isSingleDot_spell, dot, dots]
    rw [List.map_cons, Uri.Walk.run, step, ih (by simp [Uri.Walk.push])
      fun s hs => h s (List.mem_cons_of_mem segment hs), Uri.Walk.push, List.reverse_cons,
      List.append_assoc]
    rfl

/-! ## What the written form is read as -/

/-- The pieces of the written path: an empty one, and the encoded segments. -/
private theorem pieces_joined_map_spell {segments : List (List Char)} (nonempty : segments ≠ [])
    (valid : ∀ d ∈ segments, IsSegment d) :
    Uri.pieces .file (joined (segments.map spell)) = ([] :: segments).map spell := by
  obtain ⟨segment, others, rfl⟩ := List.exists_cons_of_ne_nil nonempty
  rw [List.map_cons, joined_cons, List.cons_append, pieces_cons_of_isSeparator (.inl rfl),
    pieces_joined]
  · rfl
  · intro d hd
    rw [← List.map_cons] at hd
    obtain ⟨s, hs, rfl⟩ := List.mem_map.1 hd
    exact isSegment_spell (valid s hs)

/-- Of empty segments at the start none is left to drop. -/
private theorem dropEmptyStart_dropEmptyStart (segments : List (List Char)) :
    Uri.dropEmptyStart (Uri.dropEmptyStart segments) = Uri.dropEmptyStart segments := by
  cases kept : segments.dropWhile List.isEmpty with
  | nil => simp [Uri.dropEmptyStart, kept]
  | cons segment others =>
    have first : ¬ segment.isEmpty = true := by
      intro empty
      have := List.head?_dropWhile_not List.isEmpty segments
      rw [kept] at this
      simp [empty] at this
    simp [Uri.dropEmptyStart, kept, first]

/-- The written form is read as the segments that are left behind an empty one. -/
private theorem parse_render_eq [Uri.DomainNames] (s : List Char) :
    Uri.parse (Uri.ofSegments (segments s)).render = .ok
      { scheme := "file"
        authority := some { host := .name "" }
        path := .rooted ((Uri.dropEmptyStart
          (Uri.Walk.run .file {} (([] :: segments s).map spell)).segments.reverse).map
            String.ofList) } := by
  rw [parse_render (segments_ne_nil s), Uri.filePath_eq,
    pieces_joined_map_spell (segments_ne_nil s) (isSegment_segments s)]

/-- The written form of the URI of a local path is parsed as the URI again exactly if no segment of
    it is dots. -/
private theorem parse_render_iff [Uri.DomainNames] (s : List Char) :
    Uri.parse (Uri.ofSegments (segments s)).render = .ok (Uri.ofSegments (segments s)) ↔
      ∀ d ∈ segments s, d ≠ ['.'] ∧ d ≠ ['.', '.'] := by
  rw [parse_render_eq, Except.ok.injEq]
  constructor
  · -- A segment of the URI was left by the walk, and the walk leaves no dots.
    intro same d hd
    have written := UriPath.rooted.inj (congrArg Uri.path same)
    have mem : String.ofList (spell d) ∈ (segments s).map fun s => String.ofList (spell s) :=
      List.mem_map_of_mem hd
    rw [← written] at mem
    obtain ⟨x, hx, sameText⟩ := List.mem_map.1 mem
    obtain rfl := String.ofList_injective sameText
    have plain : ¬ IsDots (spell d) := by
      rcases mem_dropEmptyStart hx with empty | hx
      · rw [empty]
        exact not_isDots_nil
      · exact not_isDots_run (by simp) _ _ (List.mem_reverse.1 hx)
    rw [isDots_spell_iff, not_or] at plain
    exact plain
  · -- Without dots, the walk takes every segment as it is, and the empty one in front is dropped.
    intro noDots
    have first : ({} : Uri.Walk).segment .file ((segments s).map spell).isEmpty (spell []) =
        ({} : Uri.Walk).push [] := by
      have others : ((segments s).map spell).isEmpty = false := by
        simpa using segments_ne_nil s
      rw [others]
      rfl
    have walk : (Uri.Walk.run .file {} (([] :: segments s).map spell)).segments =
        ((segments s).map spell).reverse ++ [[]] := by
      rw [List.map_cons, Uri.Walk.run, first, run_spell (by simp [Uri.Walk.push]) noDots]
      rfl
    have kept : Uri.dropEmptyStart ([] :: (segments s).map spell) = (segments s).map spell := by
      have behind : Uri.dropEmptyStart ([] :: (segments s).map spell) =
          Uri.dropEmptyStart ((segments s).map spell) := rfl
      rw [behind, dropEmptyStart_map_spell, segments, dropEmptyStart_dropEmptyStart]
    rw [walk, List.reverse_append, List.reverse_reverse, List.reverse_singleton,
      List.singleton_append, kept, List.map_map]
    rfl

end LocalPath

/-! ## URIs of local paths -/

/-- Whether no segment in the path of a URI is dots. -/
def Uri.NoDots (u : Uri) : Prop :=
  ∀ segments, u.path = .rooted segments → "." ∉ segments ∧ ".." ∉ segments

namespace LocalPath

/-- The URI of segments has no dots exactly if none of the segments is dots. -/
private theorem noDots_ofSegments_iff {segments : List (List Char)} :
    (Uri.ofSegments segments).NoDots ↔ ∀ d ∈ segments, d ≠ ['.'] ∧ d ≠ ['.', '.'] := by
  -- Encoded segments can be told apart, and dots are not encoded.
  have written (s : List Char) (hs : spell s = s) :
      String.ofList s ∈ segments.map (fun d => String.ofList (spell d)) ↔ s ∈ segments := by
    rw [List.mem_map]
    constructor
    · rintro ⟨d, hd, same⟩
      rwa [← spell_inj ((String.ofList_injective same).trans hs.symm)]
    · exact fun mem => ⟨s, mem, by rw [hs]⟩
  have dot : "." ∈ segments.map (fun d => String.ofList (spell d)) ↔ ['.'] ∈ segments :=
    written ['.'] (by decide)
  have dots : ".." ∈ segments.map (fun d => String.ofList (spell d)) ↔ ['.', '.'] ∈ segments :=
    written ['.', '.'] (by decide)
  have same : (Uri.ofSegments segments).NoDots ↔ ['.'] ∉ segments ∧ ['.', '.'] ∉ segments := by
    rw [← dot, ← dots]
    exact ⟨fun h => h _ rfl, fun h _ path => UriPath.rooted.inj path ▸ h⟩
  rw [same]
  exact ⟨fun h d hd => ⟨fun isDot => h.1 (isDot ▸ hd), fun isDots => h.2 (isDots ▸ hd)⟩,
    fun h => ⟨fun mem => (h _ mem).1 rfl, fun mem => (h _ mem).2 rfl⟩⟩

/-- The written form of the URI of a local path is read as the same URI exactly if no segment of it
    is dots. -/
theorem ofText_render_iff [Uri.DomainNames] {p : String} {u : Uri} (h : Uri.ofLocalPath p = .ok u) :
    Uri.ofText u.render = .ok u ↔ u.NoDots := by
  obtain ⟨s, -, rfl⟩ := ofLocalPath_eq_ok_iff.1 h
  have parsed : Uri.ofText (Uri.ofSegments (segments s)).render =
      .ok (Uri.ofSegments (segments s)) ↔
      Uri.parse (Uri.ofSegments (segments s)).render = .ok (Uri.ofSegments (segments s)) := by
    rw [Uri.ofText, Uri.parse_trim (isAscii_render_ofSegments _)]
    cases Uri.parse (Uri.ofSegments (segments s)).render with
    | ok v => simp [Except.mapError]
    | error fault => simp [Except.mapError]
  rw [parsed, parse_render_iff, noDots_ofSegments_iff]

/-- Only a drive that is broken by a tab or line break keeps dots behind it. -/
theorem noDots_of_unbroken {p : String} {u : Uri} (h : Uri.ofLocalPath p = .ok u)
    (unbroken : ∀ c ∈ p.toList, Uri.isBreak c = false) : u.NoDots := by
  obtain ⟨s, found, rfl⟩ := ofLocalPath_eq_ok_iff.1 h
  rw [noDots_ofSegments_iff]
  refine noDots_segments fun c hc => ?_
  -- Each character of the segments stands in the path, or is a separator.
  have inPath : c ∈ normalize (trimChars p.toList) := by
    obtain ⟨t, same, path | ⟨path, -⟩⟩ := rooted?_eq_some found
    · obtain rfl := (List.cons.inj same).2
      exact path ▸ List.mem_cons_of_mem _ hc
    · obtain rfl := (List.cons.inj same).2
      exact path ▸ hc
  rcases mem_normalize inPath with rfl | hc
  · decide
  · exact unbroken c ((trimChars_sublist _).subset hc)

end LocalPath

end ProjectFile
