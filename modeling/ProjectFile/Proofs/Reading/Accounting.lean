import ProjectFile.Proofs.Reading.Skipping

/-!
# The entries of a document without problems

A document lists its entries in containers below the root.  If nothing is recorded while the
document is read, no entry was dropped on its own: each command, and each link, of which an entry
is missing would have left a problem.  Links are gathered from all containers, and one that takes
the place of another is recorded.  So there are as many links as are listed.

It is different where only the last container counts.  The entries of the containers before it are
replaced with nothing recorded, so they are missing from the count.

## Key results

- `Links.size_insertMany_add_length`: links that are set are counted, or recorded as duplicates
- `Element.length_fromLast_add_replaced`: entries of the last container are counted, and those of
  other containers are replaced
- `Reading.length_add_replaced_of_no_problems`: how many entries a description has
-/

namespace ProjectFile

open ProjectFile.Markup

/-! ## Setting links -/

/-- Putting a link into a list in order makes it longer by one, unless its path is there. -/
private theorem length_putLink {link : Link} {links : List Link} (h : links.Pairwise Link.Before) :
    (putLink link links).length =
      links.length + if (links.find? (·.path == link.path)).isSome then 0 else 1 := by
  -- The cases are those of the function: the link stands first, has the path of the first one, or
  -- is put further back.
  induction links with
  | nil => rfl
  | cons l rest ih =>
    rw [List.pairwise_cons] at h
    rw [putLink]
    split
    · -- The link stands before all others, so none of them has its path.
      rename_i first
      have absent : (l :: rest).find? (·.path == link.path) = none := by
        rw [List.find?_eq_none]
        intro x hx same
        rw [beq_iff_eq] at same
        rcases List.mem_cons.1 hx with rfl | hx
        · exact String.lt_irrefl _ (same ▸ first)
        · exact String.lt_irrefl _ (same ▸ String.lt_trans first (h.1 x hx))
      rw [absent]
      rfl
    · split
      · rename_i same
        simp [same]
      · rename_i other
        have differs : (l.path == link.path) = false := by simpa using Ne.symm other
        rw [List.length_cons, List.length_cons, ih h.2, List.find?_cons, differs]
        exact Nat.add_right_comm _ _ _

namespace Links

/-- A link that is set is one more, unless its path is there. -/
private theorem size_insert (ls : Links) (link : Link) :
    (ls.insert link).size = ls.size + if (ls.get? link.path).isSome then 0 else 1 :=
  length_putLink ls.sorted

/-- Each of some links that are set is one more link, or is recorded for the one whose place it
    takes. -/
theorem size_insertMany_add_length (set : Links) (links : List Link) :
    (set.insertMany links).size + (duplicateProblems set links).length =
      set.size + links.length := by
  -- The links that are set grow, so the statement is for all of them.
  induction links generalizing set with
  | nil => rfl
  | cons link rest ih =>
    have first := size_insert set link
    have others := ih (set.insert link)
    rw [insertMany, List.foldl_cons, ← insertMany, duplicateProblems, List.length_cons]
    split
    · rename_i taken
      rw [if_pos taken] at first
      rw [List.length_cons]
      omega
    · rename_i fresh
      rw [if_neg fresh] at first
      omega

/-- Links are set one after the other. -/
private theorem insertMany_append (set : Links) (links links' : List Link) :
    set.insertMany (links ++ links') = (set.insertMany links).insertMany links' := by
  rw [insertMany, List.foldl_append, ← insertMany, ← insertMany]

end Links

/-! ## Entries that are recorded -/

namespace Element

/-- An entry without problems is a build command and gives one. -/
private theorem isSome_command? {e : Element} (clean : e.commandProblems = []) :
    e.name = "buildCommand" ∧ e.command?.isSome = true := by
  unfold commandProblems at clean
  split at clean
  · rename_i name
    split at clean
    · rename_i text value
      refine ⟨name, ?_⟩
      rw [command?, if_pos name, value]
      rfl
    · simp at clean
  · simp at clean

/-- An element without problems gives a link. -/
private theorem isSome_link [Uri.DomainNames] {e : Element} (clean : e.linkProblems = []) :
    e.link.toOption.isSome = true := by
  unfold linkProblems at clean
  split at clean
  · simp at clean
  · rename_i link eq
    rw [eq]
    rfl

/-- The commands of a build specification without problems are its children. -/
private theorem length_commands {child : Element}
    (clean : ∀ c ∈ child.children, c.commandProblems = []) :
    (child.children.filterMap command?).length = (child.named "buildCommand").length := by
  have all : child.named "buildCommand" = child.children := by
    rw [named, List.filter_eq_self]
    exact fun c hc => by simpa using (isSome_command? (clean c hc)).1
  rw [all, List.filterMap_length_eq_length]
  exact fun c hc => (isSome_command? (clean c hc)).2

/-- If no element has problems, each that lists a link gives one. -/
private theorem length_links [Uri.DomainNames] {child : Element}
    (clean : ∀ l ∈ child.named "link", l.linkProblems = []) :
    child.links.length = (child.named "link").length := by
  rw [links, List.filterMap_length_eq_length]
  exact fun l hl => isSome_link (clean l hl)

end Element

/-! ## Runs over the children of the root -/

/-- The problems of the commands of each build specification are among the notes. -/
private theorem commandProblems_eq_nil [Uri.DomainNames] {set : Links} {children : List Element}
    (clean : ∀ p, .problem p ∉ notesOnChildren set children) {child : Element}
    (mem : child ∈ children) (name : child.name = "buildSpec") :
    ∀ c ∈ child.children, c.commandProblems = [] := by
  -- The links that are set change along the children, and have no part in the problems of
  -- commands.
  induction children generalizing set with
  | nil => simp at mem
  | cons first rest ih =>
    simp only [notesOnChildren, List.mem_append, not_or] at clean
    rcases List.mem_cons.1 mem with rfl | mem
    · intro c hc
      rw [List.eq_nil_iff_forall_not_mem]
      intro p hp
      apply (clean p).1
      rw [Element.notes_buildSpec name]
      exact List.mem_map_of_mem (List.mem_flatMap_of_mem hc hp)
    · exact ih (fun p => (clean p).2) mem

/-- Where nothing is recorded, each link that is listed is one more link. -/
private theorem size_links_of_no_problems [Uri.DomainNames] {set : Links} {children : List Element}
    (clean : ∀ p, .problem p ∉ notesOnChildren set children) :
    (set.insertMany ((children.filter (·.name == "linkedResources")).flatMap Element.links)).size =
      set.size +
        ((children.filter (·.name == "linkedResources")).flatMap (·.named "link")).length := by
  -- The links that are set grow along the children, and with them the size.
  induction children generalizing set with
  | nil => rfl
  | cons child rest ih =>
    simp only [notesOnChildren, List.mem_append, not_or] at clean
    by_cases name : child.name = "linkedResources"
    · -- Neither a link without its parts nor one that takes the place of another goes unnoted.
      have notes : ∀ p, p ∉ (child.named "link").flatMap Element.linkProblems ++
          duplicateProblems set child.links := by
        intro p hp
        apply (clean p).1
        rw [Element.notes_linkedResources name]
        exact List.mem_map_of_mem hp
      rw [← List.eq_nil_iff_forall_not_mem, List.append_eq_nil_iff, List.flatMap_eq_nil_iff]
        at notes
      have cleanLater : ∀ p, .problem p ∉ notesOnChildren (set.insertMany child.links) rest :=
        fun p => by simpa [name] using (clean p).2
      have later := ih cleanLater
      have first := Links.size_insertMany_add_length set child.links
      rw [notes.2, Element.length_links notes.1, List.length_nil] at first
      rw [List.filter_cons_of_pos (by simpa using name), List.flatMap_cons, List.flatMap_cons,
        Links.insertMany_append, later, List.length_append]
      omega
    · rw [List.filter_cons_of_neg (by simpa using name)]
      exact ih fun p => by simpa [name] using (clean p).2

/-! ## Containers -/

namespace Element

/-- The entries with a name in all containers with a name below a root. -/
def listed (root : Element) (container entry : String) : List Element :=
  (root.named container).flatMap (·.named entry)

/-- Those of the entries that are in a container with a later one of its name behind it. -/
def replaced (root : Element) (container entry : String) : List Element :=
  (root.named container).dropLast.flatMap (·.named entry)

/-- Where the last container counts, the entries in it are read, and those before it are
    replaced. -/
theorem length_fromLast_add_replaced {α : Type _} {root : Element} {container entry : String}
    {f : Element → List α}
    (each : ∀ e ∈ root.named container, (f e).length = (e.named entry).length) :
    (root.fromLast container f).length + (root.replaced container entry).length =
      (root.listed container entry).length := by
  rw [fromLast, last?, replaced, listed]
  rcases List.eq_nil_or_concat (root.named container) with none | ⟨before, last, eq⟩
  · simp [none]
  · have lengths := each last (by simp [eq])
    simp only [eq, List.concat_eq_append, List.getLast?_append, List.getLast?_singleton,
      Option.some_or, List.dropLast_concat, List.flatMap_append, List.flatMap_singleton,
      List.length_append, lengths]
    omega

end Element

/-! ## Documents -/

namespace Reading

/-- If nothing is recorded, no problem is among the notes on the children of the root. -/
private theorem problem_notMem_of_problems [Uri.DomainNames] {content : String} {root : Element}
    (read : (Tree.whole (scan content.toList)).root? = some root)
    (name : root.name = "projectDescription") (clean : (ofText content).problems = [])
    (p : Problem) : .problem p ∉ notesOnChildren .empty root.children := by
  rw [problems_ofText, List.append_eq_nil_iff, read, notesOn, if_pos name] at clean
  intro mem
  have recorded := List.filterMap_eq_nil_iff.1 clean.2 _ mem
  simp [Note.problem?] at recorded

/-- If a document with the root of a description is read without a problem, there are as many
    links as are listed in it.  As many commands, projects, natures and filters as are listed are
    in the description or replaced by a later container. -/
theorem length_add_replaced_of_no_problems [Uri.DomainNames] (content : String) (root : Element)
    (read : (Tree.whole (scan content.toList)).root? = some root)
    (name : root.name = "projectDescription") (clean : (ofText content).problems = []) :
    ∃ d, (ofText content).description? = some d ∧
      d.links.size = (root.listed "linkedResources" "link").length ∧
      d.buildSpec.length + (root.replaced "buildSpec" "buildCommand").length =
        (root.listed "buildSpec" "buildCommand").length ∧
      d.projects.length + (root.replaced "projects" "project").length =
        (root.listed "projects" "project").length ∧
      d.natures.length + (root.replaced "natures" "nature").length =
        (root.listed "natures" "nature").length ∧
      d.filters.length + (root.replaced "filteredResources" "filter").length =
        (root.listed "filteredResources" "filter").length := by
  have unnoted := problem_notMem_of_problems read name clean
  refine ⟨root.description, ?_, ?_, ?_, ?_, ?_, ?_⟩
  · rw [description?_ofText, read, descriptionOf?, Option.bind_some, if_pos name]
  · have links := size_links_of_no_problems unnoted
    rwa [show Links.empty.size = 0 from rfl, Nat.zero_add] at links
  · -- Only commands can be dropped on their own; each project, nature and filter gives an entry.
    apply Element.length_fromLast_add_replaced
    intro e he
    have inRoot := List.mem_filter.1 he
    exact Element.length_commands
      (commandProblems_eq_nil unnoted inRoot.1 (by simpa using inRoot.2))
  · exact Element.length_fromLast_add_replaced fun e _ => by simp [Element.values]
  · exact Element.length_fromLast_add_replaced fun e _ => by simp [Element.values]
  · exact Element.length_fromLast_add_replaced fun e _ => by simp

/-- A command in a build specification that is replaced by an empty one. -/
theorem length_add_replaced_of_two_buildSpecs :
    let content := "<projectDescription><buildSpec><buildCommand><name>a</name></buildCommand>" ++
      "</buildSpec><buildSpec/></projectDescription>"
    ∃ root d, (Tree.whole (scan content.toList)).root? = some root ∧
      root.name = "projectDescription" ∧ (ofText content).problems = [] ∧
      (ofText content).description? = some d ∧
      d.buildSpec.length + (root.replaced "buildSpec" "buildCommand").length =
        (root.listed "buildSpec" "buildCommand").length := by
  intro content
  have rootName : (Tree.whole (scan content.toList)).root?.map Element.name =
      some "projectDescription" := by decide +kernel
  have clean : (ofText content).problems = [] := by decide +kernel
  obtain ⟨root, read, name⟩ := Option.map_eq_some_iff.1 rootName
  obtain ⟨d, description, -, commands, -⟩ :=
    length_add_replaced_of_no_problems content root read name clean
  exact ⟨root, d, read, name, clean, description, commands⟩

/-- A project is listed and gets lost, and nothing is recorded. -/
theorem projects_replaced_unrecorded :
    let content :=
      "<projectDescription><projects><project>a</project></projects><projects/></projectDescription>"
    (Tree.whole (scan content.toList)).root?.map (fun root =>
        (root.name, (root.listed "projects" "project").map Element.value)) =
        some ("projectDescription", ["a"]) ∧
      (ofText content).problems = [] ∧
      (ofText content).description?.map Description.projects = some [] := by
  intro content
  exact ⟨by decide +kernel, by decide +kernel, by decide +kernel⟩

end Reading

end ProjectFile
