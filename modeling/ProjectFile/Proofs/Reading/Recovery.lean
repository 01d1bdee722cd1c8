import ProjectFile.Proofs.Markup.Mending
import ProjectFile.Proofs.Reading.Subjects

/-!
# A document that breaks off

A document that breaks off inside of the root reads as the mended document does: the elements that
are closed at the end are those that the end tags would close.  It has one problem more, which
says where it broke off.

## Key results

- `Tree.root_whole_closings`: end tags close what the end of the document closes
- `Reading.ofText_mended`: the readings of a document that breaks off and of the mended one
-/

namespace ProjectFile

open ProjectFile.Markup

/-! ## Problems of entries -/

/-- Whether a problem is one of an entry of a description, and not one of the document. -/
def Problem.isOfEntry : Problem → Bool
  | .unresolvedText _ _ => false
  | .malformed _ _ _ => false
  | .unclosed _ => false
  | _ => true

/-- What is not about the document is about an entry. -/
private theorem Problem.isOfEntry_of_subject {p : Problem} (h : p.subject ≠ .document) :
    p.isOfEntry = true := by
  cases p <;> simp_all [subject, isOfEntry]

/-- The notes on a root are about entries. -/
theorem isOfEntry_of_mem_notesOn [Uri.DomainNames] {root? : Option Element} {p : Problem}
    (h : .problem p ∈ notesOn root?) : p.isOfEntry = true := by
  unfold notesOn at h
  split at h
  · simp at h
  · split at h
    · exact Problem.isOfEntry_of_subject (subject_ne_document_of_mem_notesOnChildren h)
    · simp at h

/-! ## The tree of a mended document -/

namespace Tree

variable {names : List String} {t : Tree}

/-- The end tags of all open elements close the innermost one, one after the other. -/
private theorem At.foldl_take_closings (h : t.At (fun _ => true) names) {opened : List (List Char)}
    (length : names.length = opened.length) :
    (closings opened).foldl Tree.take t = t.closeMany opened.length := by
  -- The names in the tree and those in the end tags are as many, and get fewer together.
  induction opened generalizing t names with
  | nil => rfl
  | cons name opened ih =>
    have closes : t.take (.closed (localName name)) = t.closeInnermost := by
      simp [Tree.take, h.root]
    cases names with
    | nil => simp at length
    | cons innermost outer =>
      rw [List.length_cons, List.length_cons, Nat.add_right_cancel_iff] at length
      rw [closings, List.map_cons, List.foldl_cons, List.length_cons, Tree.closeMany]
      cases outer with
      | nil =>
        -- This tag closes the root, and no other follows.
        rw [List.length_eq_zero_iff.1 length.symm, closes]
        rfl
      | cons next outer =>
        have nest : Event.nest (innermost :: next :: outer) (.closed (localName name)) =
            some (next :: outer) := rfl
        have after := h.step upward_all nest
        rw [← h.take_eq_step] at after
        rw [← closes]
        exact ih after length

/-- The end of the document closes the elements that end tags would close. -/
theorem root_whole_closings {es : List Event} {opened : List (List Char)} {name : String}
    {outer : List String} (inside : openNames [] es = some (name :: outer))
    (length : (name :: outer).length = opened.length) (ending ending' : Ending) :
    (whole ⟨es ++ closings opened, ending⟩).root? = (whole ⟨es, ending'⟩).root? := by
  have here := at_foldl_take inside
  -- Everything is kept, so as many elements are open in the tree as in the document.
  have count : (es.foldl take {}).opened.length = opened.length := by
    rw [← length, ← here.around_eq, around, List.length_map]
  have closed : openNames [] (es ++ closings opened) = none := by
    rw [openNames_append, inside, Option.bind_some]
    exact openNames_closings length (by simp)
  -- With the end tags the root is closed by events; without them, at the end of the document.
  rw [whole, whole, root_finish here.root, count, finish_of_root, List.foldl_append,
    here.foldl_take_closings length]
  rw [(at_nil _).foldl_take]
  exact (at_nil _).root_foldl_step upward_all closed

end Tree

/-! ## The readings -/

namespace Reading

/-- A document that breaks off inside of the root gives the description of the mended document.
    Its problems are those of the mended document, with the problem of where it breaks off behind
    those of its texts, and before those of the entries. -/
theorem ofText_mended [Uri.DomainNames] (content : String) (name : String) (outer : List String)
    (inside : openNames [] (scan content.toList).events = some (name :: outer))
    (unquoted : ∀ raw ∈ (stop content.toList).1, Unquoted raw) :
    (ofText (String.ofList (mended content.toList))).description? =
        (ofText content).description? ∧
      ∃ texts entries : List Problem,
        (∀ p ∈ texts, ∃ element fault, p = .unresolvedText element fault) ∧
        (∀ p ∈ entries, p.isOfEntry = true) ∧
        (ofText (String.ofList (mended content.toList))).problems = texts ++ entries ∧
        (ofText content).problems =
          texts ++ endProblem (innermostKept keepsChildren (name :: outer))
            (scan content.toList).ending :: entries := by
  have names := openNames_of_reads (reads_stop content.toList) inside
  have length : (name :: outer).length = (stop content.toList).1.length := by
    rw [names, List.length_map]
  have closed := scan_mended unquoted
  -- The tree gets the same root, so all that is read of the root is the same.
  have root : (Tree.whole (scan (mended content.toList))).root? =
      (Tree.whole (scan content.toList)).root? := by
    rw [closed]
    exact Tree.root_whole_closings inside length _ _
  have ended : openNames [] (scan (mended content.toList)).events = none := by
    rw [closed, openNames_append, inside, Option.bind_some]
    exact openNames_closings length (by simp)
  -- The end tags have no texts, so the same texts cannot be resolved.
  have texts : unresolvedTexts [] (scan (mended content.toList)).events =
      unresolvedTexts [] (scan content.toList).events := by
    rw [closed, unresolvedTexts_append, inside]
    simp [unresolvedTexts_closings]
  refine ⟨?_, textProblems keepsChildren (unresolvedTexts [] (scan content.toList).events),
    (notesOn (Tree.whole (scan content.toList)).root?).filterMap Note.problem?, ?_, ?_, ?_, ?_⟩
  · rw [description?_ofText, description?_ofText, String.toList_ofList, root]
  · intro p mem
    obtain ⟨found, -, rfl⟩ := List.mem_map.1 mem
    exact ⟨_, _, rfl⟩
  · intro p mem
    obtain ⟨note, mem, eq⟩ := List.mem_filterMap.1 mem
    cases note with
    | problem q =>
      simp only [Note.problem?, Option.some.injEq] at eq
      exact isOfEntry_of_mem_notesOn (eq ▸ mem)
    | _ => simp [Note.problem?] at eq
  · rw [problems_ofText, String.toList_ofList, root, ended, texts]
    simp [endProblems]
  · rw [problems_ofText, inside]
    simp [endProblems]

/-- A document that ends inside of two elements that are passed over, behind a text that cannot be
    resolved. -/
theorem ofText_mended_passed :
    let content := "<projectDescription>&x;<extra><a>"
    (openNames [] (scan content.toList).events = some ["a", "extra", "projectDescription"] ∧
      ∀ raw ∈ (stop content.toList).1, Unquoted raw) ∧
    (ofText (String.ofList (mended content.toList))).description? =
      (ofText content).description? := by
  have inside : openNames [] (scan "<projectDescription>&x;<extra><a>".toList).events =
      some ["a", "extra", "projectDescription"] := by decide +kernel
  have unquoted : ∀ raw ∈ (stop "<projectDescription>&x;<extra><a>".toList).1, Unquoted raw := by
    have opened : (stop "<projectDescription>&x;<extra><a>".toList).1 =
        ["a".toList, "extra".toList, "projectDescription".toList] := by decide +kernel
    rw [opened]
    simp [Unquoted]
  exact ⟨⟨inside, unquoted⟩, (ofText_mended _ _ _ inside unquoted).1⟩

end Reading

end ProjectFile
