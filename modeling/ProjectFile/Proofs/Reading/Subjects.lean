import ProjectFile.Proofs.Reading.Skipping

/-!
# What problems are about

A problem is about the document, about a part of a build specification, about an element that
lists a link, or about a link that takes the place of another one.  Those of a document come
first.  The others come container by container, and those about one subject are in the order of
the elements that they are about, whatever stands between the containers.

## Key results

- `filter_subject_notesOnChildren`: the problems about one subject among the notes on a root
- `Reading.filter_subject_problems`: the problems about one subject in a reading
-/

namespace ProjectFile

open ProjectFile.Markup

/-- What a problem is about. -/
inductive Problem.Subject where
  | document
  | command
  | link
  | duplicate
deriving DecidableEq, Repr

/-- What a problem is about. -/
def Problem.subject : Problem → Problem.Subject
  | .unresolvedText _ _ => .document
  | .malformed _ _ _ => .document
  | .unclosed _ => .document
  | .notACommand _ => .command
  | .unnamedCommand => .command
  | .strayArgument _ => .command
  | .missingKey => .command
  | .unnamedLink => .link
  | .badLocation _ _ => .link
  | .noLocation _ => .link
  | .badType _ _ => .link
  | .duplicateLink _ => .duplicate

/-! ## The problems that each reader records -/

namespace Element

/-- The problems of an argument are about a command. -/
private theorem subject_of_mem_settingProblems {e : Element} {p : Problem}
    (h : p ∈ e.settingProblems) : p.subject = .command := by
  unfold settingProblems at h
  split at h
  · split at h
    · simp at h
    · rw [List.mem_singleton.1 h]
      rfl
  · rw [List.mem_singleton.1 h]
    rfl

/-- The problems of a command, and those of its arguments, are about a command. -/
private theorem subject_of_mem_commandProblems {e : Element} {p : Problem}
    (h : p ∈ e.commandProblems) : p.subject = .command := by
  unfold commandProblems at h
  split at h
  · split at h
    · obtain ⟨setting, -, h⟩ := List.mem_flatMap.1 h
      exact subject_of_mem_settingProblems h
    · rw [List.mem_singleton.1 h]
      rfl
  · rw [List.mem_singleton.1 h]
    rfl

/-- The problem for which a link is dropped is about the link. -/
private theorem subject_of_link_eq_error [Uri.DomainNames] {e : Element} {p : Problem}
    (h : e.link = .error p) : p.subject = .link := by
  unfold link at h
  split at h
  · cases h
    rfl
  · split at h
    · cases h
      rfl
    · split at h
      · cases h
        rfl
      · simp at h

/-- The problems of an element that lists a link are about the link. -/
private theorem subject_of_mem_linkProblems [Uri.DomainNames] {e : Element} {p : Problem}
    (h : p ∈ e.linkProblems) : p.subject = .link := by
  unfold linkProblems at h
  split at h
  · rename_i q eq
    rw [List.mem_singleton.1 h]
    exact subject_of_link_eq_error eq
  · split at h
    · rw [List.mem_singleton.1 h]
      rfl
    · simp at h

end Element

/-- The problems of links that take the place of others are about these duplicates. -/
private theorem subject_of_mem_duplicateProblems {set : Links} {links : List Link} {p : Problem}
    (h : p ∈ duplicateProblems set links) : p.subject = .duplicate := by
  -- The set grows with each link, so the induction is for every set.
  induction links generalizing set with
  | nil => simp [duplicateProblems] at h
  | cons link rest ih =>
    simp only [duplicateProblems] at h
    split at h
    · rcases List.mem_cons.1 h with rfl | h
      · rfl
      · exact ih h
    · exact ih h

/-- Setting links in two parts: the second part finds the links of the first. -/
private theorem duplicateProblems_append (set : Links) (links links' : List Link) :
    duplicateProblems set (links ++ links') =
      duplicateProblems set links ++ duplicateProblems (set.insertMany links) links' := by
  induction links generalizing set with
  | nil => rfl
  | cons link rest ih =>
    have step : set.insertMany (link :: rest) = (set.insert link).insertMany rest := rfl
    simp only [List.cons_append, duplicateProblems, ih, step]
    split <;> rfl

/-! ## The notes on a root -/

/-- The problems about one subject are all of some problems about it, and none of those about
    another. -/
private theorem filter_subject {ps : List Problem} {own : Problem.Subject}
    (h : ∀ p ∈ ps, p.subject = own) (subject : Problem.Subject) :
    ps.filter (·.subject = subject) = if own = subject then ps else [] := by
  split
  · rename_i same
    rw [List.filter_eq_self]
    intro p hp
    simpa [← same] using h p hp
  · rename_i other
    rw [List.filter_eq_nil_iff]
    intro p hp
    simpa [h p hp] using other

section

variable [Uri.DomainNames]

/-- The children that are no containers of commands or links have no problems. -/
private theorem Element.problems_notes_of_other {set : Links} {child : Element}
    (noSpec : child.name ≠ "buildSpec") (noLinks : child.name ≠ "linkedResources") :
    (child.notes set).filterMap Note.problem? = [] := by
  unfold notes
  split <;> simp_all [Note.problem?]

/-- The problems about one subject among the notes on the children of a root, where `set` are the
    links before them. -/
def problemsAbout (set : Links) (children : List Element) : Problem.Subject → List Problem
  | .document => []
  | .command => (children.filter (·.name == "buildSpec")).flatMap fun e =>
      e.children.flatMap Element.commandProblems
  | .link => (children.filter (·.name == "linkedResources")).flatMap fun e =>
      (e.named "link").flatMap Element.linkProblems
  | .duplicate => duplicateProblems set
      ((children.filter (·.name == "linkedResources")).flatMap Element.links)

/-- The problems about one subject among the notes on the children of a root are those that the
    containers for that subject have, one container after the other. -/
theorem filter_subject_notesOnChildren (set : Links) (children : List Element)
    (subject : Problem.Subject) :
    ((notesOnChildren set children).filterMap Note.problem?).filter (·.subject = subject) =
      problemsAbout set children subject := by
  -- The links that are set grow along the children, but only duplicates depend on them.
  induction children generalizing set with
  | nil => cases subject <;> rfl
  | cons child rest ih =>
    have commands : ∀ p ∈ child.children.flatMap Element.commandProblems, p.subject = .command :=
      fun p hp => by
        obtain ⟨c, -, hp⟩ := List.mem_flatMap.1 hp
        exact Element.subject_of_mem_commandProblems hp
    have links : ∀ p ∈ (child.named "link").flatMap Element.linkProblems, p.subject = .link :=
      fun p hp => by
        obtain ⟨c, -, hp⟩ := List.mem_flatMap.1 hp
        exact Element.subject_of_mem_linkProblems hp
    rw [notesOnChildren, List.filterMap_append, List.filter_append, ih]
    -- Only the containers of commands and those of links make notes that are problems.
    by_cases isSpec : child.name = "buildSpec"
    · have noLinks : ¬ child.name = "linkedResources" := by simp [isSpec]
      rw [Element.notes_buildSpec isSpec, filterMap_problem?, filter_subject commands,
        if_neg noLinks]
      cases subject <;> simp [problemsAbout, isSpec]
    · by_cases isLinks : child.name = "linkedResources"
      · rw [Element.notes_linkedResources isLinks, filterMap_problem?, List.filter_append,
          filter_subject links, filter_subject fun p hp => subject_of_mem_duplicateProblems hp,
          if_pos isLinks]
        cases subject <;> simp [problemsAbout, isLinks, duplicateProblems_append]
      · rw [Element.problems_notes_of_other isSpec isLinks, if_neg isLinks]
        cases subject <;> simp [problemsAbout, isSpec, isLinks]

/-- No problem among the notes on a root is about the document. -/
theorem subject_ne_document_of_mem_notesOnChildren {set : Links} {children : List Element}
    {p : Problem} (h : .problem p ∈ notesOnChildren set children) : p.subject ≠ .document := by
  intro document
  have found : p ∈ ((notesOnChildren set children).filterMap Note.problem?).filter
      (·.subject = .document) := by
    rw [List.mem_filter, List.mem_filterMap]
    exact ⟨⟨_, h, rfl⟩, by simpa using document⟩
  rw [filter_subject_notesOnChildren] at found
  exact absurd found List.not_mem_nil

end

/-! ## Readings -/

namespace Reading

/-- A text that cannot be resolved is a problem of the document. -/
private theorem subject_of_mem_textProblems {keeps : List String → Bool}
    {texts : List (List String × ReferenceFault)} {p : Problem}
    (h : p ∈ textProblems keeps texts) : p.subject = .document := by
  obtain ⟨found, -, rfl⟩ := List.mem_map.1 h
  rfl

/-- An end that comes too early is a problem of the document. -/
private theorem subject_of_mem_endProblems {innermost : List String → String}
    {names? : Option (List String)} {ending : Ending} {p : Problem}
    (h : p ∈ endProblems innermost names? ending) : p.subject = .document := by
  unfold endProblems at h
  split at h
  · simp at h
  · simp at h
  · rw [List.mem_singleton.1 h]
    cases ending <;> rfl

/-- The problems about commands and links in the reading of a document with the root of a
    description are those among the notes on the root. -/
theorem filter_subject_problems [Uri.DomainNames] {content : String} {root : Element}
    (read : (Tree.whole (scan content.toList)).root? = some root)
    (name : root.name = "projectDescription") {subject : Problem.Subject}
    (entry : subject ≠ .document) :
    (ofText content).problems.filter (·.subject = subject) =
      problemsAbout .empty root.children subject := by
  rw [problems_ofText, read, notesOn, if_pos name, List.filter_append, List.filter_append,
    filter_subject fun p hp => subject_of_mem_textProblems hp,
    filter_subject fun p hp => subject_of_mem_endProblems hp, if_neg entry.symm, if_neg entry.symm,
    filter_subject_notesOnChildren]
  rfl

end Reading

end ProjectFile
