import ProjectFile.Proofs.Document.Layout
import ProjectFile.Proofs.Reading.Children
import ProjectFile.Proofs.Reading.Last
import ProjectFile.Proofs.Reading.Subjects

/-!
# The order of the children of a root

Each field of a description comes from the last child of the root with a certain name, but for the
links, which are gathered from all their containers: `Description.GivenBy`.  So it matters how the
children with one name follow each other, and no other order matters.  A document whose root has
its children in another order of this kind is read as the same description, and it has the same
problems, though they may be found in another order.

The documents are those whose root is closed: each of them is a `RootText`.

## Key results

- `perm_of_filter_eq`: two lists with the same members of each kind, in the same order, are
  permutations of each other
- `Element.description_givenBy`: which children each field of a description comes from
- `Reading.exists_reorderings`: every document that closes its root can be reordered
- `Reading.ofText_reordered`: the reading of a document with the children of its root in another
  order
-/

namespace ProjectFile

open ProjectFile.Markup

/-! ## Lists kind by kind -/

/-- Two lists with the same members of each kind are permutations of each other. -/
theorem perm_of_filter_eq {α κ : Type} [DecidableEq κ] (kind : α → κ) {xs ys : List α}
    (h : ∀ k, xs.filter (kind · = k) = ys.filter (kind · = k)) : xs.Perm ys := by
  classical
  rw [List.perm_iff_count]
  intro x
  have same := congrArg (List.count x) (h (kind x))
  rwa [List.count_filter (by simp), List.count_filter (by simp)] at same

/-! ## What a description is given by -/

/-- The names of the children of a root that a description is read from. -/
def entryNames : List String :=
  ["name", "comment", "projects", "buildSpec", "natures", "linkedResources", "filteredResources"]

/-- A value comes from the last one of some elements with a name: `f` of that element, or
    `otherwise` if there is none. -/
structure IsFromLast {α : Type} (name : String) (children : List Element) (f : Element → α)
    (otherwise value : α) : Prop where
  last : ∀ e, IsLast (·.name = name) children e → value = f e
  none : (∀ e ∈ children, e.name ≠ name) → value = otherwise

/-- Which children of the root each field of a description comes from. -/
structure Description.GivenBy [Uri.DomainNames] (d : Description) (children : List Element) :
    Prop where
  name : IsFromLast "name" children (fun e => if e.value = "" then none else some e.value) none
    d.name?
  comment : IsFromLast "comment" children Element.value "" d.comment
  projects : IsFromLast "projects" children (·.values "project") [] d.projects
  buildSpec : IsFromLast "buildSpec" children (·.children.filterMap Element.command?) [] d.buildSpec
  natures : IsFromLast "natures" children (·.values "nature") [] d.natures
  filters : IsFromLast "filteredResources" children
    (fun e => (e.named "filter").map Element.filter) [] d.filters
  /-- All containers of links count, one after the other. -/
  links : d.links =
    Links.empty.insertMany ((children.filter (·.name = "linkedResources")).flatMap Element.links)
  location : d.location? = none

namespace Element

/-- What is gathered from the last child with a name comes from that child. -/
private theorem isFromLast_fromLast {α : Type} (root : Element) (name : String)
    (f : Element → List α) : IsFromLast name root.children f [] (root.fromLast name f) where
  last e last := by rw [fromLast, last?_eq_some_iff.2 last]
  none absent := by rw [fromLast, last?_eq_none_iff.2 absent]

/-- A value comes from the last child with its name. -/
private theorem isFromLast_lastValue (root : Element) (name : String) :
    IsFromLast name root.children value "" (root.lastValue name) where
  last e last := by
    rw [lastValue, lastValue?, last?_eq_some_iff.2 last]
    rfl
  none absent := by
    rw [lastValue, lastValue?_eq_none_iff.2 absent]
    rfl

/-- Each field of a description comes from the last child of the root with its name, but for the
    links. -/
theorem description_givenBy [Uri.DomainNames] (root : Element) :
    root.description.GivenBy root.children where
  name.last e last := by
    rw [description, lastValue?, last?_eq_some_iff.2 last]
    -- A blank name is none.
    by_cases blank : e.value = "" <;> simp [Option.filter, blank]
  name.none absent := by rw [description, lastValue?_eq_none_iff.2 absent, Option.filter_none]
  comment := root.isFromLast_lastValue "comment"
  projects := root.isFromLast_fromLast _ _
  buildSpec := root.isFromLast_fromLast _ _
  natures := root.isFromLast_fromLast _ _
  filters := root.isFromLast_fromLast _ _
  links := rfl
  location := rfl

/-- Nothing but the children with the names of entries counts for the description, and of them
    only how those with one name follow each other. -/
private theorem description_congr [Uri.DomainNames] {root root' : Element}
    (h : ∀ name ∈ entryNames, root'.named name = root.named name) :
    root'.description = root.description := by
  have name := h "name" (by decide)
  have comment := h "comment" (by decide)
  have projects := h "projects" (by decide)
  have buildSpec := h "buildSpec" (by decide)
  have natures := h "natures" (by decide)
  have links := h "linkedResources" (by decide)
  have filters := h "filteredResources" (by decide)
  simp only [description, lastValue, lastValue?, last?, fromLast, allLinks, name, comment,
    projects, buildSpec, natures, links, filters]

end Element

/-! ## Another order -/

/-- The content of an element with its children in another order: those with one name are in the
    same order as before.  What stands between them may be anything, if it has no other faults. -/
structure Markup.Content.Reordered (c c' : Content) : Prop where
  kinds : ∀ name, c'.children.filter (·.name = name) = c.children.filter (·.name = name)
  faults : (c'.gaps.flatMap Gap.faults).Perm (c.gaps.flatMap Gap.faults)

/-- The children with a name are read as the elements with that name. -/
private theorem named_map_element (children : List Child) (name : String) :
    (children.map Child.element).filter (·.name == name) =
      (children.filter (·.name = name)).map Child.element := by
  rw [List.filter_map]
  congr 2
  funext c
  simp [Child.name_element, beq_eq_decide]

namespace Markup.Content.Reordered

variable {c c' : Content}

/-- The children are the same ones in another order. -/
private theorem perm_children (h : c.Reordered c') : c'.children.Perm c.children :=
  perm_of_filter_eq Child.name h.kinds

/-- The elements with one name are the same, in the same order. -/
private theorem named_elements (h : c.Reordered c') (name : String) :
    (c'.children.map Child.element).filter (·.name == name) =
      (c.children.map Child.element).filter (·.name == name) := by
  rw [named_map_element, named_map_element, h.kinds]

/-- The same texts cannot be resolved, though not in the same order. -/
private theorem perm_unresolvedTexts (h : c.Reordered c') (name : String) :
    (unresolvedTexts [name] c'.events).Perm (unresolvedTexts [name] c.events) := by
  have between := h.faults.map fun fault => ([name], fault)
  have inside := h.perm_children.flatMap_right fun child => unresolvedTexts [name] child.events
  exact (c'.perm_unresolvedTexts name).trans
    ((between.append inside).trans (c.perm_unresolvedTexts name).symm)

/-- The same problems are found when a root with the children is read, though not in the same
    order. -/
private theorem perm_notesOnChildren [Uri.DomainNames] (h : c.Reordered c') :
    ((notesOnChildren .empty (c'.children.map Child.element)).filterMap Note.problem?).Perm
      ((notesOnChildren .empty (c.children.map Child.element)).filterMap Note.problem?) := by
  -- The problems about one subject are found in the same order.
  refine perm_of_filter_eq Problem.subject fun subject => ?_
  rw [filter_subject_notesOnChildren, filter_subject_notesOnChildren]
  cases subject <;> simp only [problemsAbout, h.named_elements]

end Markup.Content.Reordered

/-! ## Readings -/

namespace Reading

variable {content : String} {r : RootText "projectDescription"}

section

variable [Uri.DomainNames]

/-- The description that a document gives is that of the elements in the content of its root. -/
private theorem exists_description_of_rootText (isText : dropMark content.toList = r.text) :
    ∃ root : Element, root.children = r.content.children.map Child.element ∧
      (ofText content).description? = some root.description := by
  obtain ⟨root, found, name, children⟩ := r.root_whole isText
  refine ⟨root, children, ?_⟩
  rw [description?_ofText, found, descriptionOf?, Option.bind_some, if_pos name]

/-- The problems of a document whose root is closed: those of the texts in it, and those of its
    entries. -/
private theorem problems_of_rootText (isText : dropMark content.toList = r.text) :
    (ofText content).problems =
      textProblems keepsChildren (unresolvedTexts ["projectDescription"] r.content.events) ++
        (notesOnChildren .empty (r.content.children.map Child.element)).filterMap
          Note.problem? := by
  obtain ⟨root, found, name, children⟩ := r.root_whole isText
  rw [problems_ofText, events_scan, isText, r.openNames_text, r.unresolvedTexts_text, found,
    notesOn, if_pos name, children, endProblems, List.append_nil]

/-- Each field of the description comes from the last child of the root with its name, but for the
    links; children with other names have no effect. -/
private theorem exists_givenBy (isText : dropMark content.toList = r.text) :
    ∃ d, (ofText content).description? = some d ∧
      d.GivenBy ((r.content.children.filter (·.name ∈ entryNames)).map Child.element) := by
  obtain ⟨root, children, read⟩ := exists_description_of_rootText isText
  -- The description does not change if the root loses its other children.
  let entries : Element :=
    { root with children := (r.content.children.filter (·.name ∈ entryNames)).map Child.element }
  have alone : entries.description = root.description := by
    refine Element.description_congr fun name isEntry => ?_
    rw [Element.named, Element.named, children, named_map_element, named_map_element,
      List.filter_filter]
    congr 2
    funext c
    by_cases named : c.name = name <;> simp [named, isEntry]
  exact ⟨root.description, read, alone ▸ entries.description_givenBy⟩

end

section

variable {content' : String} {r' : RootText "projectDescription"}

/-- The children of the root in another order give the same description. -/
private theorem description?_of_reordered [Uri.DomainNames]
    (isText : dropMark content.toList = r.text)
    (isText' : dropMark content'.toList = r'.text) (reordered : r.content.Reordered r'.content) :
    (ofText content').description? = (ofText content).description? := by
  obtain ⟨root, children, read⟩ := exists_description_of_rootText isText
  obtain ⟨root', children', read'⟩ := exists_description_of_rootText isText'
  have same : root'.description = root.description := by
    refine Element.description_congr fun name _ => ?_
    rw [Element.named, Element.named, children, children', reordered.named_elements]
  rw [read, read', same]

/-- The children of the root in another order have the same problems, each found where its child
    stands. -/
private theorem perm_problems_of_reordered [Uri.DomainNames]
    (isText : dropMark content.toList = r.text)
    (isText' : dropMark content'.toList = r'.text) (reordered : r.content.Reordered r'.content) :
    (ofText content').problems.Perm (ofText content).problems := by
  rw [problems_of_rootText isText, problems_of_rootText isText']
  have texts := reordered.perm_unresolvedTexts "projectDescription"
  exact ((texts.filter _).map _).append reordered.perm_notesOnChildren

end

/-- Any document that closes its root and gives a description has children in its root, and with
    these in another order it gives the same description. -/
theorem exists_reorderings [Uri.DomainNames] {d : Description}
    (closes : openNames [] (scan content.toList).events = none)
    (gives : (ofText content).description? = some d) :
    ∃ r : RootText "projectDescription", dropMark content.toList = r.text ∧
      d.GivenBy ((r.content.children.filter (·.name ∈ entryNames)).map Child.element) ∧
      ∀ (r' : RootText "projectDescription") (content' : String),
        dropMark content'.toList = r'.text → r.content.Reordered r'.content →
        (ofText content').description? = some d ∧
          (ofText content').problems.Perm (ofText content).problems := by
  obtain ⟨name, r, text⟩ := exists_rootText content.toList closes
  obtain ⟨root, found, named, -⟩ := r.root_whole text.symm
  -- No root with another name gives a description.
  obtain rfl : name = "projectDescription" := by
    by_contra other
    rw [description?_ofText, found, descriptionOf?, Option.bind_some, named, if_neg other] at gives
    cases gives
  obtain ⟨d', gives', given⟩ := exists_givenBy text.symm
  obtain rfl : d = d' := Option.some.inj (gives.symm.trans gives')
  refine ⟨r, text.symm, given, fun r' content' isText' reordered => ⟨?_, ?_⟩⟩
  · rw [description?_of_reordered text.symm isText' reordered, gives]
  · exact perm_problems_of_reordered text.symm isText' reordered

/-- A document with the root of a description gives one, each field of which comes from the last
    child of the root with its name, but for the links, which are gathered from all their
    containers; other children have no effect.  A document with the children of the root in another
    order, but for those with the same name, gives the same description, and has the same problems,
    though not in the same order. -/
theorem ofText_reordered [Uri.DomainNames] (r r' : RootText "projectDescription")
    (content content' : String)
    (isText : dropMark content.toList = r.text) (isText' : dropMark content'.toList = r'.text)
    (reordered : r.content.Reordered r'.content) :
    ∃ d, (ofText content).description? = some d ∧ (ofText content').description? = some d ∧
      d.GivenBy ((r.content.children.filter (·.name ∈ entryNames)).map Child.element) ∧
      (ofText content').problems.Perm (ofText content).problems := by
  obtain ⟨d, gives, given⟩ := exists_givenBy isText
  have gives' := (description?_of_reordered isText isText' reordered).trans gives
  exact ⟨d, gives, gives', given, perm_problems_of_reordered isText isText' reordered⟩

/-- A child that holds a text. -/
def leafChild (name text : String) (named : isElementName name = true) : Child where
  name := name
  text := openTag name ++ (escape text.toList ++ closeTag name)
  events := .opened name :: (textEvents (escape text.toList) ++ [.closed name])
  isElement := by
    have plain : ∀ c ∈ escape text.toList, c ≠ '<' := fun c hc => ne_open_of_mem_escape hc
    have inside := reads_text plain [] startsMarkup_nil
    rw [List.append_nil] at inside
    exact .pair (piece_openTag named) inside (piece_closeTag named) (localName_of_named named)

/-- A comment can stand anywhere between the names, but the blank name stays the last one. -/
theorem ofText_reordered_comment :
    let content :=
      "<projectDescription><name>a</name><comment>b</comment><name> </name></projectDescription>"
    let content' :=
      "<projectDescription><name>a</name><name> </name><comment>b</comment></projectDescription>"
    ∃ r r' : RootText "projectDescription",
      dropMark content.toList = r.text ∧ dropMark content'.toList = r'.text ∧
      r.content.Reordered r'.content ∧
      ∃ d, (ofText content).description? = some d ∧ (ofText content').description? = some d ∧
        d.GivenBy ((r.content.children.filter (·.name ∈ entryNames)).map Child.element) ∧
        (ofText content').problems.Perm (ofText content).problems := by
  intro content content'
  -- The documents have nothing but leaves in their roots.
  let row (children : List Child) : RootText "projectDescription" :=
    { prolog := .empty
      content := ⟨children.map fun c => ⟨.empty, c⟩, .empty⟩
      root := _
      events := _
      holds := .pair _ (piece_openTag (by decide)) (piece_closeTag (by decide))
        (localName_of_named (by decide))
      tail := [] }
  let name := leafChild "name" "a" (by decide)
  let comment := leafChild "comment" "b" (by decide)
  let blank := leafChild "name" " " (by decide)
  let r := row [name, comment, blank]
  let r' := row [name, blank, comment]
  have isText : dropMark content.toList = r.text := by decide +kernel
  have isText' : dropMark content'.toList = r'.text := by decide +kernel
  have reordered : r.content.Reordered r'.content := by
    refine ⟨fun kind => ?_, .refl _⟩
    change [name, blank, comment].filter _ = [name, comment, blank].filter _
    -- The comment is the only one of its kind, and without it the two rows are the same.
    by_cases isComment : "comment" = kind
    · subst isComment
      rfl
    · have passed : decide (comment.name = kind) = false := by
        simpa [comment, leafChild] using isComment
      simp [List.filter_cons, passed]
  exact ⟨r, r', isText, isText', reordered,
    ofText_reordered r r' content content' isText isText' reordered⟩

end Reading

end ProjectFile
