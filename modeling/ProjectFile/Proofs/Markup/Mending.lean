import ProjectFile.Proofs.Markup.Nesting

/-!
# Mending a document

A document that breaks off is mended by leaving out the token that fails, with all behind it, and
closing what is open (`mended`).  The mended document has the same events, then the end of each
open element, and breaks off nowhere.

## Key results

- `isTagName_of_reads`: the names of open elements can be written in end tags
- `scan_mended`: the scan of a mended document
-/

namespace ProjectFile.Markup

/-- Whether a name has no quotes.  In a tag, a `>` between quotes does not end the tag. -/
def Unquoted (name : List Char) : Prop :=
  ∀ c ∈ name, c ≠ '"' ∧ c ≠ '\''

/-- The document up to the token that fails, or all of it. -/
def intact (content : List Char) : List Char :=
  content.take (content.length - (stop content).2.length)

/-- The document up to the token that fails, with all elements closed. -/
def mended (content : List Char) : List Char :=
  intact content ++ endTags (stop content).1

/-! ## The names of open elements -/

/-- The elements that an event leaves open were open before it, or have been opened by a tag. -/
private theorem mem_of_eventOfToken {opened opened' : List (List Char)} {t : Token} {e : Event}
    {name : List Char} (h : eventOfToken opened t = .ok (e, opened')) (mem : name ∈ opened') :
    name ∈ opened ∨ t = .openTag name := by
  cases eventOfToken_eq_ok_iff.1 h with
  | openTag _ other =>
    rcases List.mem_cons.1 mem with rfl | mem
    · exact .inr rfl
    · exact .inl mem
  | closeTag => exact .inl (List.mem_cons_of_mem _ mem)
  | _ => exact .inl mem

/-- A name without quotes that a part of a document leaves open can be written in an end tag. -/
theorem isTagName_of_reads {opened opened' : List (List Char)} {s rest : List Char}
    {es : List Event} (h : Reads opened s es opened' rest) {name : List Char}
    (mem : name ∈ opened') (unquoted : Unquoted name) : name ∈ opened ∨ IsTagName name := by
  -- An element that is open at the end was open before the first event, or some event opened it.
  induction h with
  | done => exact .inl mem
  | event step _ ih =>
    obtain ⟨t, token, event⟩ := exists_token_of_event step
    rcases ih mem with mem | named
    · rcases mem_of_eventOfToken event mem with mem | rfl
      · exact .inl mem
      · exact .inr (isTagName_of_openTag token unquoted)
    · exact .inr named

/-! ## The mended document -/

/-- A document that does not start with a byte order mark is read as it is. -/
theorem dropMark_of_head? {s : List Char} (h : s.head? ≠ some '\ufeff') : dropMark s = s := by
  unfold dropMark
  split
  · simp at h
  · rfl

/-- What is in front of the token that fails is intact. -/
private theorem intact_eq {content front : List Char}
    (split : content = front ++ (stop content).2) : intact content = front := by
  have length : content.length - (stop content).2.length = front.length := by
    have := congrArg List.length split
    simp only [List.length_append] at this
    omega
  rw [intact, length]
  -- The document stands on both sides, and only the one that is cut is split up.
  conv => lhs; rw [split]
  exact List.take_left

/-- The mended document without its byte order mark is the part that is read, with the end tags
    behind it. -/
private theorem dropMark_mended {content piece : List Char}
    (split : dropMark content = piece ++ (stop content).2) :
    dropMark (mended content) = piece ++ endTags (stop content).1 := by
  by_cases marked : content.head? = some '\ufeff'
  · obtain ⟨tail, rfl⟩ : ∃ tail, content = '\ufeff' :: tail := by
      cases content with
      | nil => simp at marked
      | cons c tail =>
        simp only [List.head?_cons, Option.some.injEq] at marked
        exact ⟨tail, by rw [marked]⟩
    -- The byte order mark is no part of what is read, but stays in front of the mended document.
    have front : intact ('\ufeff' :: tail) = '\ufeff' :: piece :=
      intact_eq (congrArg (List.cons '\ufeff') split)
    rw [mended, front]
    rfl
  · rw [dropMark_of_head? marked] at split
    rw [mended, intact_eq split]
    apply dropMark_of_head?
    -- What is mended starts as it did, or with an end tag.
    cases piece with
    | nil =>
      intro h
      have := startsMarkup_endTags (stop content).1 _ h
      simp at this
    | cons c piece =>
      rw [split] at marked
      exact marked

/-- A mended document has the events that are read before it breaks off, and then the end of each
    element that was open. -/
theorem scan_mended {content : List Char}
    (unquoted : ∀ name ∈ (stop content).1, Unquoted name) :
    scan (mended content) =
      ⟨(scan content).events ++ closings (stop content).1, .finished⟩ := by
  have reads := reads_stop content
  have named : ∀ name ∈ (stop content).1, IsTagName name := by
    intro name mem
    -- At the start of a document nothing is open, so each name that is open was read.
    rcases isTagName_of_reads reads mem (unquoted name mem) with mem | named
    · simp at mem
    · exact named
  obtain ⟨piece, split, again⟩ := reads.exists_piece
  -- What is read reads the same with the end tags behind it, and they close all that is open.
  have all := (again _ (startsMarkup_endTags _)).trans (reads_endTags named)
  rw [← dropMark_mended split] at all
  rw [scan_eq_of_reads all (stops_nil _)]
  rfl

end ProjectFile.Markup
