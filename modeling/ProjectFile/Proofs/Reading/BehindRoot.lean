import ProjectFile.Proofs.Reading.Recovery
import ProjectFile.Proofs.Reading.RootName

/-!
# Behind the root

Nothing behind the root is looked at.  The events of a document up to the end of its root are those
of any longer document, and the tree is complete with the last of them.  So the longer document
reads the same, whatever stands behind the root.

How a document ends is a problem only if its root is open there, and then it is one problem: that
the markup breaks off, or that the document ends too early.

## Key results

- `Tree.ofScan_of_closed`: the tree is complete once the root is closed
- `Reading.ofText_append`: a document with anything behind it
-/

namespace ProjectFile

open ProjectFile.Markup

namespace Markup

/-! ## Before the root is closed -/

/-- Nothing is open behind an event that leaves the root open exactly if nothing was open before it
    and it opens nothing. -/
private theorem eq_nil_iff_of_nest {names names' : List String} {e : Event}
    (nest : e.nest names = some names') : names' = [] ↔ names = [] ∧ e.opened? = none := by
  cases e with
  | opened name =>
    simp only [Event.nest, Option.some.injEq] at nest
    simp [← nest, Event.opened?]
  | empty name =>
    cases names with
    | nil => simp [Event.nest] at nest
    | cons innermost outer =>
      simp only [Event.nest, Option.some.injEq] at nest
      simp [← nest]
  | closed name =>
    -- An end tag either ends the document inside of the root, or leaves the next element open.
    rcases names with _ | ⟨innermost, _ | ⟨around, outer⟩⟩
    · simp_all [Event.nest, Event.opened?]
    · simp [Event.nest] at nest
    · simp only [Event.nest, Option.some.injEq] at nest
      simp [← nest]
  | _ =>
    simp only [Event.nest, Option.some.injEq] at nest
    simp [← nest, Event.opened?]

/-- While the root is not closed, an element is open exactly if one was open before, or one has been
    opened since. -/
private theorem eq_nil_iff_of_openNames {names names' : List String} {es : List Event}
    (inside : openNames names es = some names') :
    names' = [] ↔ names = [] ∧ rootName? es = none := by
  -- The induction follows the events; an element is open as soon as one of them has opened it.
  induction es generalizing names with
  | nil =>
    obtain rfl : names = names' := by simpa using inside
    simp [rootName?]
  | cons e es ih =>
    rw [openNames_cons] at inside
    obtain ⟨next, nest, inside⟩ := Option.bind_eq_some_iff.1 inside
    rw [ih inside, eq_nil_iff_of_nest nest, rootName?, rootName?, List.findSome?_cons]
    cases e.opened? with
    | none => simp
    | some name => simp

/-- A document that is cut off closes its root only by events of the whole document. -/
private theorem exists_closed_of_cutOff {es full : List Event} (h : CutOff es full)
    (closed : openNames [] es = none) :
    ∃ whole, openNames [] whole = none ∧ whole <+: es ∧ whole <+: full := by
  obtain ⟨whole, part, rfl, within, isPart⟩ := h
  refine ⟨whole, ?_, List.prefix_append _ _, within⟩
  -- A part of a text closes nothing.
  rcases isPart with rfl | ⟨raw, rfl⟩
  · rwa [List.append_nil] at closed
  · rw [openNames_append] at closed
    cases inside : openNames [] whole with
    | none => rfl
    | some names =>
      rw [inside] at closed
      simp [Event.nest] at closed

end Markup

/-! ## The tree -/

namespace Tree

/-- The tree is complete once the root is closed: nothing that follows counts. -/
theorem ofScan_of_closed {keeps : List String → Bool} (up : Upward keeps) {s : Scan}
    {front : List Event} (closed : openNames [] front = none) (within : front <+: s.events) :
    ofScan keeps s = front.foldl (step keeps) {} := by
  obtain ⟨behind, split⟩ := within
  have root := (at_nil keeps).root_foldl_step up closed
  rw [ofScan, ← split, List.foldl_append, foldl_step_of_root root, finish_of_root root]

end Tree

/-! ## Problems of the end -/

/-- Whether a problem is about how a document ends: the markup breaks off, or the document ends
    before its root does. -/
def Problem.isOfEnd : Problem → Bool
  | .malformed _ _ _ => true
  | .unclosed _ => true
  | _ => false

/-- A problem of an entry is not one of the end. -/
private theorem Problem.not_isOfEnd_of_isOfEntry {p : Problem} (h : p.isOfEntry = true) :
    p.isOfEnd = false := by
  cases p <;> simp_all [isOfEntry, isOfEnd]

/-- The problem that an end gives is one of the end. -/
private theorem isOfEnd_endProblem (element : String) (ending : Ending) :
    (endProblem element ending).isOfEnd = true := by
  cases ending <;> rfl

/-- The problems of texts are not problems of the end. -/
private theorem filter_isOfEnd_textProblems (keeps : List String → Bool)
    (texts : List (List String × ReferenceFault)) :
    (textProblems keeps texts).filter Problem.isOfEnd = [] := by
  rw [List.filter_eq_nil_iff]
  intro p mem
  obtain ⟨found, -, rfl⟩ := List.mem_map.1 mem
  simp [textProblem, Problem.isOfEnd]

namespace Reading

/-- Of the problems of a document, those of its end. -/
private theorem filter_isOfEnd_problems [Uri.DomainNames] (content : String) :
    (ofText content).problems.filter Problem.isOfEnd =
      (endProblems (innermostKept keepsChildren) (openNames [] (scan content.toList).events)
        (scan content.toList).ending).filter Problem.isOfEnd := by
  -- What is noted while the tree is read as a description is about its entries.
  have entries : ((notesOn (Tree.whole (scan content.toList)).root?).filterMap
      Note.problem?).filter Problem.isOfEnd = [] := by
    rw [List.filter_eq_nil_iff]
    intro p mem
    obtain ⟨note, noted, eq⟩ := List.mem_filterMap.1 mem
    cases note with
    | problem q =>
      obtain rfl : q = p := by simpa [Note.problem?] using eq
      simp [Problem.not_isOfEnd_of_isOfEntry (isOfEntry_of_mem_notesOn noted)]
    | _ => simp [Note.problem?] at eq
  rw [problems_ofText, List.filter_append, List.filter_append, filter_isOfEnd_textProblems, entries,
    List.nil_append, List.append_nil]

/-- A document whose root is closed reads the same with anything behind it, and how it ends is no
    problem.  If an element is opened and the root is not closed, how the document ends is exactly
    one problem. -/
theorem ofText_append [Uri.DomainNames] (content : String) :
    (openNames [] (scan content.toList).events = none →
      (∀ tail, ofText (content ++ tail) = ofText content) ∧
        (ofText content).problems.filter Problem.isOfEnd = []) ∧
    (rootName? (scan content.toList).events ≠ none →
      openNames [] (scan content.toList).events ≠ none →
        ∃ element, (ofText content).problems.filter Problem.isOfEnd =
          [endProblem element (scan content.toList).ending]) := by
  constructor
  · intro closed
    refine ⟨fun tail => ?_, ?_⟩
    · -- The events up to the end of the root are those of both documents.
      obtain ⟨front, closed, within, longer⟩ :=
        exists_closed_of_cutOff (cutOff_scan content.toList tail.toList) closed
      rw [ofText, ofText, String.toList_append,
        Tree.ofScan_of_closed upward_keepsChildren closed longer,
        Tree.ofScan_of_closed upward_keepsChildren closed within]
    · rw [filter_isOfEnd_problems, closed]
      rfl
  · intro opened unclosed
    obtain ⟨names, inside⟩ := Option.ne_none_iff_exists'.1 unclosed
    -- Without an open element none was ever opened, against `opened`.
    cases names with
    | nil => exact absurd ((eq_nil_iff_of_openNames inside).1 rfl).2 opened
    | cons name outer =>
      refine ⟨innermostKept keepsChildren (name :: outer), ?_⟩
      rw [filter_isOfEnd_problems, inside]
      simp [endProblems, isOfEnd_endProblem]

/-- A root that is closed behind an element that is passed over, with a second root and broken
    markup behind it; and a root that is open where the markup breaks off. -/
theorem ofText_append_secondRoot :
    let closed := "<a:projectDescription><extra><name/></extra></a:projectDescription>"
    let unclosed := "<projectDescription><extra></name>"
    (openNames [] (scan closed.toList).events = none ∧
      ofText (closed ++ "&x;<projectDescription></a><![") = ofText closed) ∧
    (rootName? (scan unclosed.toList).events ≠ none ∧
      openNames [] (scan unclosed.toList).events ≠ none) ∧
    ∃ element, (ofText unclosed).problems.filter Problem.isOfEnd =
      [endProblem element (scan unclosed.toList).ending] := by
  intro closed unclosed
  have root : openNames [] (scan closed.toList).events = none := by decide +kernel
  have opened : rootName? (scan unclosed.toList).events ≠ none := by decide +kernel
  have inside : openNames [] (scan unclosed.toList).events ≠ none := by decide +kernel
  exact ⟨⟨root, ((ofText_append closed).1 root).1 _⟩, ⟨opened, inside⟩,
    (ofText_append unclosed).2 opened inside⟩

end Reading

end ProjectFile
