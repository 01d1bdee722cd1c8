import ProjectFile.Document
import ProjectFile.Proofs.Location.Acceptance

/-!
# Local paths in normal form

A local path is written for a URI only if it leads back to the URI.  A path that comes out of a URI
as it went in is one in normal form: it is in its canonical spelling, and has nothing in it that is
passed over, taken back or mended on the way.  Nothing gets longer on the way, so whatever is
changed leaves a shorter path.

## Key results

- `LocalPath.isNormal_iff`: a path is in normal form exactly if it comes back from its URI
- `LocalPath.localPath?_of_isNormal`: paths in normal form are written as they are
- `LocalPath.localPath?_of_ofLocalPath`: the local path of any accepted path leads back to the same
  URI exactly if it is in normal form
-/

namespace ProjectFile.LocalPath

open ProjectFile.Text

/-- Whether a local path is in normal form. -/
structure IsNormal (p : String) : Prop where
  trimmed : trim p = p
  separators : '\\' ∉ p.toList
  unbroken : ∀ c ∈ p.toList, Uri.isBreak c = false
  single : ¬ ['/', '/'] <:+: p.toList
  ends : p.toList.getLast? = some '/' → p = "/"
  noDots : ∀ s ∈ p.toList.splitOn '/', s ≠ ['.'] ∧ s ≠ ['.', '.']
  /-- The path is rooted, and its first segment is no drive, or it starts with a drive. -/
  absolute : (∃ s, p.toList = '/' :: s ∧ Uri.isDrive (s.takeWhile (· != '/')) = false) ∨
    startsWithDrive p.toList = true

/-! ## Paths in normal form come back -/

namespace IsNormal

variable {p : String}

/-- A path in normal form is trimmed. -/
private theorem trimChars_eq (h : IsNormal p) : trimChars p.toList = p.toList := by
  rw [← toList_trim, h.trimmed]

/-- A path in normal form is in its canonical spelling. -/
private theorem normalize_eq (h : IsNormal p) : normalize p.toList = p.toList := by
  refine normalize_eq_self_iff.2 ⟨h.separators, h.single, fun last => ?_⟩
  rw [h.ends last]
  rfl

end IsNormal

/-- The first segment of a path that starts with a drive is the drive. -/
private theorem takeWhile_of_startsWithDrive {s : List Char} (h : startsWithDrive s = true) :
    ∃ letter, letter.isAlpha = true ∧ s.takeWhile (· != '/') = [letter, ':'] := by
  obtain ⟨letter, rest, rfl, isLetter, after⟩ := startsWithDrive_iff.1 h
  have noSlash : (letter != '/') = true :=
    bne_iff_ne.2 fun slash => not_isSeparator_of_isAlpha isLetter (.inl slash)
  refine ⟨letter, isLetter, ?_⟩
  rw [List.takeWhile_cons_of_pos (p := (· != '/')) noSlash,
    List.takeWhile_cons_of_pos (p := (· != '/')) rfl]
  cases rest with
  | nil => rfl
  | cons c rest =>
    obtain rfl := after c rfl
    rfl

/-- What follows the root of a path in normal form: its segments are those of the path, its first
    one is a drive only if that is left as it is, and it is shown as the path. -/
structure IsRest (p : String) (s : List Char) : Prop where
  rooted : rooted? p.toList = some ('/' :: s)
  pieces : ∀ d ∈ Uri.pieces .file s, d ∈ p.toList.splitOn '/'
  drive : ∀ first ∈ (Uri.pieces .file s).head?, Uri.isDrive first = true → first[1]? = some ':'
  start : s = [] ∨ ∀ first ∈ (Uri.pieces .file s).head?, first ≠ []
  shown : display (Uri.pieces .file s) = p.toList

namespace IsNormal

variable {p : String}

/-- What follows the separator at the start of a rooted path. -/
private theorem isRest_of_slash (h : IsNormal p) {s : List Char} (hp : p.toList = '/' :: s)
    (noDrive : Uri.isDrive (s.takeWhile (· != '/')) = false) : IsRest p s := by
  have noBackslash : '\\' ∉ s := by
    intro mem
    exact h.separators (by rw [hp]; exact List.mem_cons_of_mem _ mem)
  -- The root is kept where the path is shown, as no drive follows it.
  have unrooted : startsWithDrive s = false := by
    by_contra drive
    obtain ⟨letter, isLetter, first⟩ := takeWhile_of_startsWithDrive (by simpa using drive)
    rw [first] at noDrive
    simp [Uri.isDrive, isLetter] at noDrive
  refine ⟨by rw [hp]; rfl, fun d hd => ?_, fun first hfirst isDrive => ?_, ?_, ?_⟩
  · rw [← pieces_eq_splitOn h.separators, hp, pieces_cons_of_isSeparator (.inl rfl)]
    exact List.mem_cons_of_mem _ hd
  · rw [head?_pieces noBackslash, Option.mem_some] at hfirst
    rw [← hfirst, noDrive] at isDrive
    cases isDrive
  · cases s with
    | nil => exact .inl rfl
    | cons c s =>
      right
      intro first hfirst
      have other : (c != '/') = true := by
        refine bne_iff_ne.2 fun slash => h.single ?_
        rw [hp, slash]
        exact ⟨[], s, rfl⟩
      rw [head?_pieces noBackslash, Option.mem_some,
        List.takeWhile_cons_of_pos (p := (· != '/')) other] at hfirst
      simp [← hfirst]
  · rw [display, joined_pieces noBackslash, List.drop_one, List.tail_cons, unrooted, hp]
    rfl

/-- A path that starts with a drive follows its root as a whole. -/
private theorem isRest_of_drive (h : IsNormal p) (drive : startsWithDrive p.toList = true) :
    IsRest p p.toList := by
  obtain ⟨letter, isLetter, first⟩ := takeWhile_of_startsWithDrive drive
  refine ⟨?_, fun d hd => ?_, fun first' hfirst _ => ?_, .inr fun first' hfirst => ?_, ?_⟩
  · rw [rooted?, if_neg (head?_ne_of_startsWithDrive drive), if_pos drive]
  · rwa [← pieces_eq_splitOn h.separators]
  · rw [head?_pieces h.separators, Option.mem_some, first] at hfirst
    rw [← hfirst]
    rfl
  · rw [head?_pieces h.separators, Option.mem_some, first] at hfirst
    simp [← hfirst]
  · rw [display, joined_pieces h.separators, List.drop_one, List.tail_cons, if_pos drive]

/-- No segment of a path in normal form is taken for something else. -/
private theorem isPlain (h : IsNormal p) {s : List Char} (rest : IsRest p s) :
    ∀ d ∈ Uri.pieces .file s, IsPlain d := by
  intro d hd
  have segment := rest.pieces d hd
  refine ⟨fun c hc => h.unbroken c ?_, h.noDots d segment⟩
  rw [← pieces_eq_splitOn h.separators] at segment
  exact (mem_of_mem_pieces segment c hc).1

/-- A path in normal form has the URI of its segments, and is what they are shown as. -/
private theorem exists_segments (h : IsNormal p) :
    ∃ s, Uri.ofLocalPath p = .ok (Uri.ofSegments (segments s)) ∧
      display (segments s) = p.toList := by
  have rest : ∃ s, IsRest p s := by
    rcases h.absolute with ⟨s, hp, noDrive⟩ | drive
    · exact ⟨s, h.isRest_of_slash hp noDrive⟩
    · exact ⟨_, h.isRest_of_drive drive⟩
  obtain ⟨s, rest⟩ := rest
  refine ⟨s, ofLocalPath_eq_ok_iff.2 ⟨s, ?_, rfl⟩, ?_⟩
  · rw [h.trimChars_eq, h.normalize_eq, rest.rooted]
  · rw [segments_eq_pieces (h.isPlain rest) rest.drive rest.start, rest.shown]

end IsNormal

/-! ## Only paths in normal form come back -/

section

variable {p s : List Char}

/-- What segments are shown as has no characters but theirs, and separators. -/
private theorem mem_display {segments : List (List Char)} {c : Char} (h : c ∈ display segments) :
    c = '/' ∨ ∃ d ∈ segments, c ∈ d := by
  have mem : c ∈ joined segments := by
    unfold display at h
    split at h
    · exact List.mem_of_mem_drop h
    · exact h
  obtain ⟨d, hd, hc⟩ := List.mem_flatMap.1 mem
  rcases List.mem_cons.1 hc with slash | hc
  · exact .inl slash
  · exact .inr ⟨d, hd, hc⟩

/-- The pieces of what segments are shown as are the segments, and nothing before the root. -/
private theorem mem_pieces_display {segments : List (List Char)} (nonempty : segments ≠ [])
    (valid : ∀ d ∈ segments, IsSegment d) {d : List Char}
    (h : d ∈ Uri.pieces .file (display segments)) : d = [] ∨ d ∈ segments := by
  obtain ⟨segment, others, rfl⟩ := List.exists_cons_of_ne_nil nonempty
  rcases joined_eq nonempty with shown | ⟨shown, -⟩
  · rw [← shown, joined_cons, List.cons_append, pieces_cons_of_isSeparator (.inl rfl),
      pieces_joined valid] at h
    exact List.mem_cons.1 h
  · rw [joined_cons, List.cons_append, List.cons_inj_right] at shown
    rw [← shown, pieces_joined valid] at h
    exact .inr h

/-- A drive is shown without its root. -/
private theorem display_drive {letter : Char} (h : letter.isAlpha = true)
    (others : List (List Char)) :
    display ([letter, ':'] :: others) = letter :: ':' :: joined others := by
  have drive : startsWithDrive (letter :: ':' :: joined others) = true := by
    refine startsWithDrive_iff.2 ⟨letter, _, rfl, h, fun c hc => ?_⟩
    cases others with
    | nil => simp [joined_nil] at hc
    | cons other others => exact (Option.some.inj hc).symm
  exact if_pos drive

/-- What segments are shown as is no longer than they are with their separators. -/
private theorem length_display_le (segments : List (List Char)) :
    (display segments).length ≤ (joined segments).length := by
  unfold display
  split
  · rw [List.length_drop]
    exact Nat.sub_le _ _
  · exact Nat.le_refl _

/-- A path that comes back is no longer than its canonical spelling. -/
private theorem length_le_of_display (found : rooted? (normalize (trimChars p)) = some ('/' :: s))
    (back : display (segments s) = p) : p.length ≤ (normalize (trimChars p)).length := by
  have walked := length_joined_segments s
  obtain ⟨t, same, path | ⟨path, drive⟩⟩ := rooted?_eq_some found
  · obtain rfl := (List.cons.inj same).2
    have shown := length_display_le (segments s)
    rw [path, List.length_cons, ← back]
    omega
  · obtain rfl := (List.cons.inj same).2
    rcases joined_eq (segments_ne_nil s) with shown | ⟨shown, -⟩
    · -- The path would be rooted, and so would be its canonical spelling.
      obtain ⟨t, root⟩ := exists_joined (segments_ne_nil s)
      rw [back, root] at shown
      obtain ⟨trimmed, htrim⟩ := exists_trimChars_append (s := []) (c := '/')
        (bareStart_cons rfl []) rfl t
      rw [← shown, ← List.nil_append ('/' :: t), htrim, List.nil_append,
        normalize_cons_of_isSeparator (.inl rfl)] at drive
      exact absurd rfl (head?_ne_of_startsWithDrive drive)
    · rw [shown, back, List.length_cons] at walked
      rw [path]
      omega

/-- The characters of a path that comes back are those of segments. -/
private theorem pure_of_display (back : display (segments s) = p) {c : Char} (hc : c ∈ p) :
    c ≠ '\\' ∧ Uri.isBreak c = false := by
  rcases mem_display (back ▸ hc) with rfl | ⟨d, hd, hc⟩
  · decide
  · have valid := isSegment_segments s d hd c hc
    exact ⟨fun backslash => valid.1 (.inr backslash), valid.2⟩

/-- A path that comes back is trimmed, and in its canonical spelling. -/
private theorem canonical_of_display (found : rooted? (normalize (trimChars p)) = some ('/' :: s))
    (back : display (segments s) = p) : trimChars p = p ∧ normalize p = p := by
  -- Since nothing gets longer on the way, nothing has been changed.
  have length := length_le_of_display found back
  have trimmed : trimChars p = p :=
    (trimChars_sublist _).eq_of_length_le (Nat.le_trans length (normalize_length_le _))
  rw [trimmed] at length
  have separators : '\\' ∉ p := fun mem => (pure_of_display back mem).1 rfl
  exact ⟨trimmed,
    (normalize_of_length_le length).1.trans (map_unifySeparator_eq_self_iff.2 separators)⟩

/-- No piece of a path that comes back is dots: without breaks, none are left as segments. -/
private theorem noDots_of_display (found : rooted? p = some ('/' :: s))
    (back : display (segments s) = p) :
    ∀ d ∈ Uri.pieces .file p, d ≠ ['.'] ∧ d ≠ ['.', '.'] := by
  have unbroken : ∀ c ∈ s, Uri.isBreak c = false := by
    intro c hc
    obtain ⟨t, same, path | ⟨path, -⟩⟩ := rooted?_eq_some found
    · obtain rfl := (List.cons.inj same).2
      exact (pure_of_display back (path ▸ List.mem_cons_of_mem _ hc)).2
    · obtain rfl := (List.cons.inj same).2
      exact (pure_of_display back (path ▸ hc)).2
  intro d hd
  rcases mem_pieces_display (segments_ne_nil s) (isSegment_segments s) (back ▸ hd) with rfl | hd
  · simp
  · exact noDots_segments unbroken d hd

/-- The first segment of a rooted path that comes back is no drive. -/
private theorem isDrive_eq_false_of_display (back : display (segments s) = '/' :: s)
    (noDots : ∀ d ∈ Uri.pieces .file s, d ≠ ['.'] ∧ d ≠ ['.', '.']) :
    Uri.isDrive (s.takeWhile (· != '/')) = false := by
  by_contra drive
  have noBackslash : '\\' ∉ s := fun mem =>
    (pure_of_display back (List.mem_cons_of_mem _ mem)).1 rfl
  have plain : ∀ raw ∈ Uri.pieces .file s, IsPlain raw := by
    refine fun raw hraw => ⟨fun c hc => ?_, noDots raw hraw⟩
    exact (pure_of_display back (List.mem_cons_of_mem _ (mem_of_mem_pieces hraw c hc).1)).2
  obtain ⟨letter, others, isLetter, walked⟩ := segments_of_drive plain (by
    intro raw hraw
    rw [head?_pieces noBackslash, Option.mem_some] at hraw
    rw [← hraw]
    simpa using drive)
  -- The drive would be shown without its root, but the path has one.
  rw [walked, display_drive isLetter] at back
  exact not_isSeparator_of_isAlpha isLetter (.inl (List.cons.inj back).1)

end

/-- A path that comes back from its URI is in normal form. -/
private theorem isNormal_of_localPath? {p : String} {u : Uri} (accepted : Uri.ofLocalPath p = .ok u)
    (back : u.localPath? = some p) : IsNormal p := by
  obtain ⟨s, found, rfl⟩ := ofLocalPath_eq_ok_iff.1 accepted
  rw [localPath?_ofSegments, Option.some.injEq, ← String.toList_inj, String.toList_ofList] at back
  -- The path is no longer than its canonical spelling, so it is that spelling.
  obtain ⟨trimmed, canonical⟩ := canonical_of_display found back
  obtain ⟨separators, single, ends⟩ := normalize_eq_self_iff.1 canonical
  rw [trimmed, canonical] at found
  have noDots := noDots_of_display found back
  refine ⟨?_, separators, fun c hc => (pure_of_display back hc).2, single, fun last => ?_, ?_, ?_⟩
  · rw [← String.toList_inj, toList_trim, trimmed]
  · rw [← String.toList_inj, ends last]
    rfl
  · rwa [← pieces_eq_splitOn separators]
  obtain ⟨t, same, path | ⟨path, drive⟩⟩ := rooted?_eq_some found
  · obtain rfl := (List.cons.inj same).2
    rw [path] at back
    refine .inl ⟨s, path, isDrive_eq_false_of_display back fun d hd => noDots d ?_⟩
    rw [path, pieces_cons_of_isSeparator (.inl rfl)]
    exact List.mem_cons_of_mem _ hd
  · exact .inr drive

/-- A path is in normal form exactly if it comes back from its URI. -/
theorem isNormal_iff {p : String} :
    IsNormal p ↔ ∃ u, Uri.ofLocalPath p = .ok u ∧ u.localPath? = some p := by
  constructor
  · intro h
    obtain ⟨s, accepted, shown⟩ := h.exists_segments
    refine ⟨_, accepted, ?_⟩
    rw [localPath?_ofSegments, shown, String.ofList_toList]
  · rintro ⟨u, accepted, back⟩
    exact isNormal_of_localPath? accepted back

/-- Two URIs of local paths with the same local path are the same. -/
private theorem eq_of_localPath? {p q r : String} {u v : Uri} (hu : Uri.ofLocalPath p = .ok u)
    (hv : Uri.ofLocalPath q = .ok v) (backU : u.localPath? = some r)
    (backV : v.localPath? = some r) : u = v := by
  obtain ⟨s, -, rfl⟩ := ofLocalPath_eq_ok_iff.1 hu
  obtain ⟨t, -, rfl⟩ := ofLocalPath_eq_ok_iff.1 hv
  rw [localPath?_ofSegments, Option.some.injEq] at backU backV
  have same := String.ofList_injective (backU.trans backV.symm)
  rw [display_inj (segments_ne_nil s) (segments_ne_nil t) (isSegment_segments s)
    (isSegment_segments t) same]

/-! ## What is written for a location -/

/-- A local path that leads back to its URI is written. -/
private theorem writtenPath?_of_leads_back {p : String} {u : Uri}
    (accepted : Uri.ofLocalPath p = .ok u)
    (back : u.localPath? = some p) : u.writtenPath? = some p := by
  simp [Uri.writtenPath?, back, accepted]

/-- A local path that leads to another URI, or to none, is not written. -/
private theorem writtenPath?_of_leads_away {p : String} {u : Uri} (h : Uri.ofLocalPath p ≠ .ok u)
    (back : u.localPath? = some p) : u.writtenPath? = none := by
  unfold Uri.writtenPath?
  rw [back, Option.filter_some]
  cases accepted : Uri.ofLocalPath p with
  | ok v =>
    have other : v ≠ u := by
      rintro rfl
      exact h accepted
    simp [other]
  | error fault => rfl

/-- A local path in normal form has a URI, which leads back to it and to no other path in normal
    form, and a link at that URI is written with the path as it is. -/
theorem localPath?_of_isNormal {p : String} (h : IsNormal p) :
    ∃ u, Uri.ofLocalPath p = .ok u ∧ u.localPath? = some p ∧
      (∀ q, IsNormal q → Uri.ofLocalPath q = .ok u → q = p) ∧
      ∀ l : Link, l.location = u →
        l.node =
          .block "link" (.leaf "name" l.path :: typeNodes l.type? ++ [.leaf "location" p]) := by
  obtain ⟨u, accepted, back⟩ := isNormal_iff.1 h
  refine ⟨u, accepted, back, fun q hq same => ?_, fun l hl => ?_⟩
  · obtain ⟨v, accepted', back'⟩ := isNormal_iff.1 hq
    rw [same, Except.ok.injEq] at accepted'
    rw [← accepted', back, Option.some.injEq] at back'
    exact back'.symm
  · rw [Link.node, hl, locationNode, writtenPath?_of_leads_back accepted back]

/-- Dots, percent signs and the marks of queries and fragments stay what they are. -/
theorem localPath?_of_isNormal_escaped :
    IsNormal "/tmp/%2e%2e/100% sure?#\u00e9|" ∧
      ∃ u, Uri.ofLocalPath "/tmp/%2e%2e/100% sure?#\u00e9|" = .ok u ∧
        u.localPath? = some "/tmp/%2e%2e/100% sure?#\u00e9|" := by
  have canonical : normalize "/tmp/%2e%2e/100% sure?#\u00e9|".toList =
      "/tmp/%2e%2e/100% sure?#\u00e9|".toList := by
    decide
  obtain ⟨separators, single, -⟩ := normalize_eq_self_iff.1 canonical
  have normal : IsNormal "/tmp/%2e%2e/100% sure?#\u00e9|" :=
    ⟨by decide, separators, by simp [Uri.isBreak], single, by decide, by decide,
      .inl ⟨_, rfl, by decide⟩⟩
  obtain ⟨u, accepted, back, -⟩ := localPath?_of_isNormal normal
  exact ⟨normal, u, accepted, back⟩

/-- No letter is white space. -/
private theorem isWhiteSpace_of_isAlpha {c : Char} (h : c.isAlpha = true) :
    isWhiteSpace c = false := by
  have all : ∀ n < 0x80, (Char.ofNat n).isAlpha = true → isWhiteSpace (Char.ofNat n) = false := by
    decide
  have this := all c.toNat (Uri.toNat_lt_of_isAlpha h)
  rw [Char.ofNat_toNat] at this
  exact this h

/-- What segments are shown as is absolute. -/
private theorem isAbsolute_display {segments : List (List Char)} (h : segments ≠ []) :
    IsAbsolute (trimChars (display segments)) := by
  -- The segments are shown behind a separator, or from their drive on.
  rcases joined_eq h with shown | ⟨-, drive⟩
  · obtain ⟨s, hs⟩ := exists_joined h
    obtain ⟨t, ht⟩ := exists_trimChars_append (s := []) (c := '/') (bareStart_cons rfl []) rfl s
    rw [← shown, hs, ← List.nil_append ('/' :: s), ht]
    exact .rooted (.inl rfl)
  · obtain ⟨letter, rest, hrest, isLetter, after⟩ := startsWithDrive_iff.1 drive
    have black := isWhiteSpace_of_isAlpha isLetter
    rw [hrest]
    cases rest with
    | nil =>
      have trimmed : trimChars [letter, ':'] = [letter, ':'] :=
        (trimChars_eq_self_iff _).2 ⟨bareStart_cons black _, bareStart_cons (c := ':') rfl _⟩
      rw [trimmed]
      exact .drive isLetter
    | cons c rest =>
      obtain rfl := after c rfl
      obtain ⟨t, ht⟩ := exists_trimChars_append (s := [letter, ':']) (c := '/')
        (bareStart_cons black _) rfl rest
      have root : letter :: ':' :: '/' :: rest = [letter, ':'] ++ '/' :: rest := rfl
      rw [root, ht]
      exact .onDrive isLetter (.inl rfl)

/-- The URI of any accepted path has a local path, which is accepted as well.  It leads back to the
    URI, so that it is written for it, exactly if it is in normal form. -/
theorem localPath?_of_ofLocalPath {p : String} {u : Uri} (h : Uri.ofLocalPath p = .ok u) :
    ∃ q, u.localPath? = some q ∧ (∃ v, Uri.ofLocalPath q = .ok v) ∧
      (Uri.ofLocalPath q = .ok u ↔ IsNormal q) ∧
      (IsNormal (String.ofList (normalize (trim p).toList)) →
        q = String.ofList (normalize (trim p).toList)) ∧
      (IsNormal q → locationNode u = .leaf "location" q) ∧
      (¬ IsNormal q → locationNode u = .leaf "locationURI" u.render) := by
  have back : ∃ q, u.localPath? = some q ∧ IsAbsolute (trim q).toList := by
    obtain ⟨s, -, rfl⟩ := ofLocalPath_eq_ok_iff.1 h
    refine ⟨_, localPath?_ofSegments _, ?_⟩
    rw [toList_trim, String.toList_ofList]
    exact isAbsolute_display (segments_ne_nil s)
  obtain ⟨q, back, absolute⟩ := back
  -- Two accepted paths with one local path have one URI.
  have stable : Uri.ofLocalPath q = .ok u ↔ IsNormal q := by
    refine ⟨fun accepted => isNormal_of_localPath? accepted back, fun normal => ?_⟩
    obtain ⟨v, accepted, back'⟩ := isNormal_iff.1 normal
    rw [accepted, eq_of_localPath? accepted h back' back]
  refine ⟨q, back, ?_, stable, fun normal => ?_, fun normal => ?_, fun other => ?_⟩
  · obtain ⟨s, -, accepted⟩ := exists_ofLocalPath absolute
    exact ⟨_, accepted⟩
  · obtain ⟨v, accepted, back'⟩ := isNormal_iff.1 normal
    have same : Uri.ofLocalPath p = .ok v := by
      refine ofLocalPath_of_normalize_eq ?_ accepted
      rw [normal.trimChars_eq, normal.normalize_eq, String.toList_ofList, toList_trim]
    rw [h, Except.ok.injEq] at same
    rw [← same, back] at back'
    exact Option.some.inj back'
  · rw [locationNode, writtenPath?_of_leads_back (stable.2 normal) back]
  · rw [locationNode, writtenPath?_of_leads_away (mt stable.1 other) back]

/-- A path whose dots are resolved is given back without them. -/
theorem localPath?_of_ofLocalPath_dots :
    ∃ u, Uri.ofLocalPath "C:\\a\\..\\b " = .ok u ∧
      ∃ q, u.localPath? = some q ∧ (Uri.ofLocalPath q = .ok u ↔ IsNormal q) := by
  have accepted : Uri.ofLocalPath "C:\\a\\..\\b " =
      .ok (Uri.ofSegments [['C', ':'], ['b']]) := by
    decide
  obtain ⟨q, back, -, stable, -⟩ := localPath?_of_ofLocalPath accepted
  exact ⟨_, accepted, q, back, stable⟩

/-- A dot at the end leaves a separator there, which the canonical spelling does not have, and a
    separator at the end can hide white space. -/
theorem localPath?_leads_away :
    (∃ u, Uri.ofLocalPath "/a/." = .ok u ∧ u.localPath? = some "/a/" ∧
      Uri.ofLocalPath "/a/" ≠ .ok u) ∧
    (∃ u, Uri.ofLocalPath "/a /" = .ok u ∧ u.localPath? = some "/a " ∧
      Uri.ofLocalPath "/a " ≠ .ok u) :=
  ⟨⟨Uri.ofSegments [['a'], []], by decide, localPath?_ofSegments _, by decide⟩,
    ⟨Uri.ofSegments [['a', ' ']], by decide, localPath?_ofSegments _, by decide⟩⟩

end ProjectFile.LocalPath
