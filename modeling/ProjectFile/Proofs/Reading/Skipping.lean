import ProjectFile.Proofs.Reading.Interpretation

/-!
# Passing over loses nothing

A document can also be read without passing over anything: every element of it is put into the
tree, with all its children (`Tree.whole`), and the description is read from that tree
(`Reading.ofWhole`).  Reading the kept elements alone comes to the same description, and to the
same notes on it.  What is found while the tree is built differs in two ways only: the texts that
are passed over are not looked at, and the end of the document inside of the root is laid to the
innermost element that is kept.

## Key results

- `Tree.whole_eq_ofScan`: keeping everything passes over nothing
- `Reading.ofText_agrees_with_ofWhole`: the two readings of a document
-/

namespace ProjectFile

open ProjectFile.Markup

/-! ## The whole tree -/

namespace Tree

/-- One event of the document, with nothing passed over: every element is opened, and keeps all
    its children. -/
def take (t : Tree) (e : Event) : Tree :=
  if t.root?.isSome then t
  else
    match e with
    | .opened name => { t with opened := { name } :: t.opened }
    | .empty name => t.attach { name }
    | .closed _ => t.closeInnermost
    | .text raw => t.addText raw
    | .data content => t.append content
    | .aside => t

/-- The tree of a scanned document with all its elements. -/
def whole (s : Scan) : Tree :=
  (s.events.foldl take {}).finish s.ending

variable {names : List String} {t : Tree}

/-- If every element keeps its children, an event is taken as in the usual run. -/
theorem At.take_eq_step (h : t.At (fun _ => true) names) (e : Event) :
    t.take e = t.step (fun _ => true) e := by
  have none : t.skipped = 0 := by
    have := h.not_pos_of_all
    omega
  rw [h.step_eq]
  unfold Tree.take
  -- Nothing is ever passed over, so the tests on it drop out.
  cases e <;> simp [advance, none, h.root]

/-- Behind the root nothing is taken. -/
theorem foldl_take_of_root (h : t.root?.isSome = true) (es : List Event) :
    es.foldl take t = t := by
  induction es with
  | nil => rfl
  | cons e es ih =>
    have same : t.take e = t := by
      unfold take
      rw [if_pos h]
    rw [List.foldl_cons, same, ih]

/-- If every element keeps its children, a run is the usual run. -/
theorem At.foldl_take (h : t.At (fun _ => true) names) (es : List Event) :
    es.foldl Tree.take t = es.foldl (Tree.step fun _ => true) t := by
  -- The run goes on from every place, so the names are general.
  induction es generalizing t names with
  | nil => rfl
  | cons e es ih =>
    rw [List.foldl_cons, List.foldl_cons, h.take_eq_step]
    cases nest : e.nest names with
    | none =>
      -- Both ways of reading stop at the end of the root.
      have root := h.root_step upward_all nest
      rw [foldl_take_of_root root, foldl_step_of_root root]
    | some names' => exact ih (h.step upward_all nest)

/-- A run inside of the root leads to where its events lead. -/
theorem at_foldl_take {es : List Event} (inside : openNames [] es = some names) :
    (es.foldl take {}).At (fun _ => true) names := by
  rw [(at_nil _).foldl_take]
  exact (at_nil _).foldl_step upward_all inside

/-- Keeping the children of every element passes over nothing. -/
theorem whole_eq_ofScan (s : Scan) : whole s = ofScan (fun _ => true) s := by
  rw [whole, ofScan, (at_nil _).foldl_take]

/-- The problems of the whole tree: all texts that cannot be resolved, and then how the document
    ends in its innermost element. -/
private theorem problems_whole (s : Scan) :
    (whole s).problems =
      (unresolvedTexts [] s.events).map textProblem ++
        endProblems (·.headD "") (openNames [] s.events) s.ending := by
  have texts : ∀ texts, textProblems (fun _ => true) texts = texts.map textProblem := by
    intro texts
    simp [textProblems, isKept]
  have innermost : innermostKept (fun _ => true) = (·.headD "") := by
    funext names
    rw [innermostKept, keptNames_of_isKept rfl]
  rw [whole_eq_ofScan, problems_ofScan upward_all, texts, innermost]

end Tree

/-! ## What a root is read as -/

/-- The description that the root of a document gives. -/
def descriptionOf? [Uri.DomainNames] (root? : Option Element) : Option Description :=
  root?.bind fun root =>
    if root.name = "projectDescription" then some root.description else none

/-- The notes that are made when the root of a document is read as a description. -/
def notesOn [Uri.DomainNames] (root? : Option Element) : List Note :=
  match root? with
  | none => []
  | some root =>
    if root.name = "projectDescription" then notesOnChildren .empty root.children
    else [.wrongRoot root.name]

/-- The notes of problems give these problems. -/
theorem filterMap_problem? (ps : List Problem) :
    (ps.map Note.problem).filterMap Note.problem? = ps := by
  simp [List.filterMap_map, Function.comp_def, Note.problem?]

section

variable [Uri.DomainNames]

/-- The description of a tree is the one of its root. -/
theorem Tree.description?_reading (t : Tree) :
    t.reading.description? = descriptionOf? t.root? := by
  rw [reading, descriptionOf?]
  cases t.root? with
  | none => rfl
  | some root =>
    simp only [Option.bind_some]
    split <;> rfl

/-- What is found while the tree is built comes before the notes on its root. -/
theorem Tree.notes_reading (t : Tree) :
    t.reading.notes = t.problems.map .problem ++ notesOn t.root? := by
  rw [reading]
  cases t.root? with
  | none => exact (List.append_nil _).symm
  | some root =>
    simp only [notesOn]
    split <;> rfl

/-- A change that keeps what is read keeps the description. -/
theorem Element.Faithful.descriptionOf? {g : List String → Element → Element} (h : Faithful g)
    (root? : Option Element) : descriptionOf? (root?.map (g [])) = descriptionOf? root? := by
  cases root? with
  | none => rfl
  | some root =>
    simp only [ProjectFile.descriptionOf?, Option.map_some, Option.bind_some, h.name]
    split
    · rename_i name
      rw [h.description root name]
    · rfl

/-- A change that keeps what is read keeps the notes on it. -/
theorem Element.Faithful.notesOn {g : List String → Element → Element} (h : Faithful g)
    (root? : Option Element) : notesOn (root?.map (g [])) = notesOn root? := by
  cases root? with
  | none => rfl
  | some root =>
    simp only [ProjectFile.notesOn, Option.map_some, h.name]
    split
    · rename_i name
      rw [h.children_of_named name (by decide), h.notesOnChildren]
    · rfl

end

/-! ## The two readings -/

namespace Reading

section

variable [Uri.DomainNames]

/-- Reads a document with nothing passed over. -/
def ofWhole (content : String) : Reading :=
  (Tree.whole (scan content.toList)).reading

/-- Passing over elements does not change the description. -/
theorem description?_ofText (content : String) :
    (ofText content).description? = descriptionOf? (Tree.whole (scan content.toList)).root? := by
  rw [ofText, Tree.description?_reading, Tree.root_ofScan upward_keepsChildren,
    Element.faithful_prune.descriptionOf?, Tree.whole_eq_ofScan]

/-- The notes on a document: those on its texts, on its end and on what its root is read as. -/
private theorem notes_ofText (content : String) :
    (ofText content).notes =
      (textProblems keepsChildren (unresolvedTexts [] (scan content.toList).events) ++
        endProblems (innermostKept keepsChildren) (openNames [] (scan content.toList).events)
          (scan content.toList).ending).map .problem ++
      notesOn (Tree.whole (scan content.toList)).root? := by
  rw [ofText, Tree.notes_reading, Tree.problems_ofScan upward_keepsChildren,
    Tree.root_ofScan upward_keepsChildren, Element.faithful_prune.notesOn, Tree.whole_eq_ofScan]

/-- The problems of a document: those of its texts, that of its end, and those of its entries. -/
theorem problems_ofText (content : String) :
    (ofText content).problems =
      textProblems keepsChildren (unresolvedTexts [] (scan content.toList).events) ++
        endProblems (innermostKept keepsChildren) (openNames [] (scan content.toList).events)
          (scan content.toList).ending ++
        (notesOn (Tree.whole (scan content.toList)).root?).filterMap Note.problem? := by
  rw [problems, notes_ofText, List.filterMap_append, filterMap_problem?]

/-- Reading the kept elements alone gives the description that the whole document gives, and the
    same notes on it.  Of what is found while the tree is built, the texts in elements that are
    passed over are left out, and the end of the document inside of the root names the innermost
    kept element instead of the innermost one. -/
theorem ofText_agrees_with_ofWhole (content : String) :
    (ofText content).description? = (ofWhole content).description? ∧
      (ofWhole content).notes =
        ((unresolvedTexts [] (scan content.toList).events).map textProblem ++
          endProblems (·.headD "") (openNames [] (scan content.toList).events)
            (scan content.toList).ending).map .problem ++
        notesOn (Tree.whole (scan content.toList)).root? ∧
      (ofText content).notes =
        (((unresolvedTexts [] (scan content.toList).events).filter fun found =>
            isKept keepsChildren found.1).map textProblem ++
          endProblems (innermostKept keepsChildren) (openNames [] (scan content.toList).events)
            (scan content.toList).ending).map .problem ++
        notesOn (Tree.whole (scan content.toList)).root? := by
  refine ⟨?_, ?_, notes_ofText content⟩
  · rw [description?_ofText, ofWhole, Tree.description?_reading]
  · rw [ofWhole, Tree.notes_reading, Tree.problems_whole]

end

end Reading

end ProjectFile
