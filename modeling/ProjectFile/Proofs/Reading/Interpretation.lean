import Mathlib.Data.List.Basic
import ProjectFile.Proofs.Reading.Pruning
import ProjectFile.Reading.Describe

/-!
# What a description is read from

What a description says, and which notes are made on it, is decided by the values of the elements
at some paths (`valuePaths`), and by the children of the elements whose paths are kept.  So a root
element reads as before if its parts are changed without a change to these: `Element.Faithful`
says which changes those are.

Leaving out the children that are not kept is one of them.

## Key results

- `Element.Faithful.description`: a root that is changed faithfully gives the same description
- `Element.Faithful.notesOnChildren`: a root that is changed faithfully gives the same notes
- `Element.faithful_prune`: leaving out the children that are not kept is faithful
-/

namespace ProjectFile

/-- The paths, from the root down, of the elements whose texts are read as values. -/
def valuePaths : List (List String) :=
  [["projectDescription", "name"],
   ["projectDescription", "comment"],
   ["projectDescription", "projects", "project"],
   ["projectDescription", "natures", "nature"],
   ["projectDescription", "buildSpec", "buildCommand", "name"],
   ["projectDescription", "buildSpec", "buildCommand", "arguments", "dictionary", "key"],
   ["projectDescription", "buildSpec", "buildCommand", "arguments", "dictionary", "value"],
   ["projectDescription", "linkedResources", "link", "name"],
   ["projectDescription", "linkedResources", "link", "type"],
   ["projectDescription", "linkedResources", "link", "location"],
   ["projectDescription", "linkedResources", "link", "locationURI"],
   ["projectDescription", "filteredResources", "filter", "id"],
   ["projectDescription", "filteredResources", "filter", "name"],
   ["projectDescription", "filteredResources", "filter", "type"],
   ["projectDescription", "filteredResources", "filter", "matcher", "id"],
   ["projectDescription", "filteredResources", "filter", "matcher", "arguments"]]

/-- Whether the text of the innermost one of some elements is read as a value. -/
def holdsValue (names : List String) : Bool :=
  valuePaths.contains names.reverse

namespace Element

/-- A change to elements that keeps what is read of them: their names, their values where they are
    read, and their children where they are kept.  What an element is changed to may depend on the
    names of the elements around it, innermost first. -/
structure Faithful (g : List String → Element → Element) : Prop where
  name : ∀ around e, (g around e).name = e.name
  value : ∀ around e, holdsValue (e.name :: around) = true → (g around e).value = e.value
  children : ∀ around e, keepsChildren (e.name :: around).reverse = true →
    (g around e).children = e.children.map (g (e.name :: around))

/-- Leaving out the children that are not kept is faithful. -/
theorem faithful_prune : Faithful (prune keepsChildren) where
  name := name_prune keepsChildren
  value around e _ := by rw [value, text_prune, value]
  children around e kept := by rw [children_prune, if_pos kept]

/-- A child that is found by its name has that name. -/
private theorem name_of_mem_named {e child : Element} {name : String} (h : child ∈ e.named name) :
    child.name = name := by
  simpa using (List.mem_filter.1 h).2

namespace Faithful

variable {g : List String → Element → Element} (h : Faithful g)
include h

/-! ## Children of a changed element -/

section
variable {around : List String} {e : Element} {own : String} (isNamed : e.name = own)
  (kept : keepsChildren (own :: around).reverse = true)
include isNamed kept

/-- The children of an element at a kept path are changed one by one. -/
theorem children_of_named :
    (g around e).children = e.children.map (g (own :: around)) := by
  subst isNamed
  exact h.children around e kept

/-- The children with a name are those that had it before. -/
private theorem named (name : String) :
    (g around e).named name = (e.named name).map (g (own :: around)) := by
  rw [Element.named, h.children_of_named isNamed kept, List.filter_map, Element.named]
  congr 2
  funext child
  simp [h.name]

/-- What is read of each child with a name, and is the same for the child when it is changed, is
    the same for all of them. -/
private theorem named_map {α : Type _} (name : String) {f : Element → α}
    (same : ∀ child, child.name = name → f (g (own :: around) child) = f child) :
    ((g around e).named name).map f = (e.named name).map f := by
  rw [h.named isNamed kept, List.map_map]
  exact List.map_congr_left fun child mem => same child (name_of_mem_named mem)

/-- What is read of the last child with a name is what was read of it before. -/
private theorem last?_map {α : Type _} (name : String) {f : Element → α}
    (same : ∀ child, child.name = name → f (g (own :: around) child) = f child) :
    ((g around e).last? name).map f = (e.last? name).map f := by
  rw [last?, ← List.getLast?_map, h.named_map isNamed kept _ same, List.getLast?_map, last?]

/-- The value of the last child with a name stays the same, if it is read there. -/
theorem lastValue? {name : String} (read : holdsValue (name :: own :: around) = true) :
    (g around e).lastValue? name = e.lastValue? name :=
  h.last?_map isNamed kept _ fun child named => h.value _ child (named ▸ read)

/-- The value of the last child with a name, or nothing, stays the same. -/
private theorem lastValue {name : String} (read : holdsValue (name :: own :: around) = true) :
    (g around e).lastValue name = e.lastValue name := by
  rw [Element.lastValue, h.lastValue? isNamed kept read, Element.lastValue]

/-- The values of all children with a name stay the same, if they are read there. -/
private theorem values {name : String} (read : holdsValue (name :: own :: around) = true) :
    (g around e).values name = e.values name :=
  h.named_map isNamed kept _ fun child named => h.value _ child (named ▸ read)

/-- What is gathered from the last child with a name stays the same. -/
private theorem fromLast {α : Type _} (name : String) {f : Element → List α}
    (same : ∀ child, child.name = name → f (g (own :: around) child) = f child) :
    (g around e).fromLast name f = e.fromLast name f := by
  have unfold_last : ∀ root : Element,
      root.fromLast name f = ((root.last? name).map f).getD [] := by
    intro root
    rw [Element.fromLast]
    cases root.last? name <;> rfl
  rw [unfold_last, unfold_last, h.last?_map isNamed kept _ same]

end

/-! ## Build commands -/

/-- An entry of the arguments sets the same. -/
private theorem setting? (e : Element) :
    (g ["arguments", "buildCommand", "buildSpec", "projectDescription"] e).setting? =
      e.setting? := by
  rw [Element.setting?, Element.setting?, h.name]
  split
  · rename_i name
    rw [h.lastValue? name (by decide) (by decide), h.lastValue name (by decide) (by decide)]
  · rfl

/-- An entry of the arguments has the same problems. -/
private theorem settingProblems (e : Element) :
    (g ["arguments", "buildCommand", "buildSpec", "projectDescription"] e).settingProblems =
      e.settingProblems := by
  rw [Element.settingProblems, Element.settingProblems, h.name]
  split
  · rename_i name
    rw [h.lastValue? name (by decide) (by decide)]
  · rfl

/-- The arguments of a command have the same entries, each of them changed. -/
private theorem settings (e : Element) (name : e.name = "buildCommand") :
    (g ["buildSpec", "projectDescription"] e).settings =
      e.settings.map (g ["arguments", "buildCommand", "buildSpec", "projectDescription"]) := by
  rw [Element.settings, Element.settings, h.named name (by decide), List.flatMap_map,
    List.map_flatMap]
  apply List.flatMap_congr
  intro a ha
  rw [h.children_of_named (name_of_mem_named ha) (by decide)]

/-- An entry of a build specification gives the same command. -/
private theorem command? (e : Element) :
    (g ["buildSpec", "projectDescription"] e).command? = e.command? := by
  rw [Element.command?, Element.command?, h.name]
  split
  · rename_i name
    -- The entries of the arguments are changed one by one, and each of them sets the same.
    have settings : (e.settings.map
        (g ["arguments", "buildCommand", "buildSpec", "projectDescription"])).filterMap
          Element.setting? = e.settings.filterMap Element.setting? := by
      rw [List.filterMap_map]
      exact List.filterMap_congr fun a _ => h.setting? a
    rw [h.lastValue? name (by decide) (by decide), h.settings e name, settings]
  · rfl

/-- An entry of a build specification has the same problems. -/
private theorem commandProblems (e : Element) :
    (g ["buildSpec", "projectDescription"] e).commandProblems = e.commandProblems := by
  rw [Element.commandProblems, Element.commandProblems, h.name]
  split
  · rename_i name
    rw [h.lastValue? name (by decide) (by decide), h.settings e name, List.flatMap_map]
    simp only [h.settingProblems]
  · rfl

/-! ## Linked resources and filters -/

/-- The last location of a link is changed to the last location. -/
private theorem lastLocation (e : Element) (name : e.name = "link") :
    ((g ["linkedResources", "projectDescription"] e).children.filter isLocation).getLast? =
      (e.children.filter isLocation).getLast?.map
        (g ["link", "linkedResources", "projectDescription"]) := by
  have same : isLocation ∘ g ["link", "linkedResources", "projectDescription"] = isLocation := by
    funext child
    simp [isLocation, h.name]
  rw [h.children_of_named name (by decide), List.filter_map, List.getLast?_map, same]

section

variable [Uri.DomainNames]

/-- A location, in either form, is read as the same. -/
private theorem location (e : Element) (holds : isLocation e = true) :
    (g ["link", "linkedResources", "projectDescription"] e).location = e.location := by
  -- Both forms hold their values at paths that are read.
  have read : holdsValue [e.name, "link", "linkedResources", "projectDescription"] = true := by
    rw [isLocation, Bool.or_eq_true, beq_iff_eq, beq_iff_eq] at holds
    rcases holds with name | name
    · rw [name]
      decide
    · rw [name]
      decide
  rw [Element.location, Element.location, h.name, h.value _ e read]

/-- A link is read as the same. -/
private theorem link (e : Element) (name : e.name = "link") :
    (g ["linkedResources", "projectDescription"] e).link = e.link := by
  rw [Element.link, Element.link, h.lastValue? name (by decide) (by decide),
    h.lastValue name (by decide) (by decide), h.lastLocation e name]
  cases e.lastValue? "name" with
  | none => rfl
  | some path =>
    -- The last location in either form is the one that was the last before.
    cases found : (e.children.filter isLocation).getLast? with
    | none => rfl
    | some holder =>
      have holds := (List.mem_filter.1 (List.mem_of_getLast? found)).2
      simp only [Option.map_some, h.location holder holds]

/-- Linked resources give the same links. -/
private theorem links (e : Element) (name : e.name = "linkedResources") :
    (g ["projectDescription"] e).links = e.links := by
  rw [Element.links, Element.links, h.named name (by decide), List.filterMap_map]
  refine List.filterMap_congr fun l hl => ?_
  rw [Function.comp_apply, h.link l (name_of_mem_named hl)]

/-- A link has the same problems. -/
private theorem linkProblems (e : Element) (name : e.name = "link") :
    (g ["linkedResources", "projectDescription"] e).linkProblems = e.linkProblems := by
  rw [Element.linkProblems, Element.linkProblems, h.link e name,
    h.lastValue name (by decide) (by decide)]

end

/-- A matcher is read as the same. -/
private theorem matcher (e : Element) (name : e.name = "matcher") :
    (g ["filter", "filteredResources", "projectDescription"] e).matcher = e.matcher := by
  rw [Element.matcher, Element.matcher, h.lastValue name (by decide) (by decide),
    h.lastValue name (by decide) (by decide)]

/-- A filter is read as the same. -/
private theorem filter (e : Element) (name : e.name = "filter") :
    (g ["filteredResources", "projectDescription"] e).filter = e.filter := by
  have kept : keepsChildren
      ["filter", "filteredResources", "projectDescription"].reverse = true := by decide
  rw [Element.filter, Element.filter, h.lastValue name kept (by decide),
    h.lastValue name kept (by decide), h.lastValue name kept (by decide),
    h.last?_map name kept "matcher" h.matcher]

/-! ## The root -/

section

variable [Uri.DomainNames]

/-- The links of all containers are the same. -/
private theorem allLinks (root : Element) (name : root.name = "projectDescription") :
    (g [] root).allLinks = root.allLinks := by
  rw [Element.allLinks, Element.allLinks, h.named name (by decide), List.flatMap_map]
  exact List.flatMap_congr fun container mem => h.links container (name_of_mem_named mem)

/-- A root that is changed faithfully gives the same description. -/
theorem description (root : Element) (name : root.name = "projectDescription") :
    (g [] root).description = root.description := by
  -- Each field is read from children of the root, all of which are kept.
  have kept : keepsChildren ["projectDescription"].reverse = true := by decide
  have projects := h.fromLast name kept "projects" (f := (·.values "project"))
    fun child named => h.values named (by decide) (by decide)
  have natures := h.fromLast name kept "natures" (f := (·.values "nature"))
    fun child named => h.values named (by decide) (by decide)
  have buildSpec := h.fromLast name kept "buildSpec"
    (f := (·.children.filterMap Element.command?)) fun child named => by
      rw [h.children_of_named named (by decide), List.filterMap_map]
      exact List.filterMap_congr fun c _ => h.command? c
  have filters := h.fromLast name kept "filteredResources"
    (f := fun e => (e.named "filter").map Element.filter) fun child named =>
      h.named_map named (by decide) _ h.filter
  rw [Element.description, Element.description, h.lastValue? name kept (by decide),
    h.lastValue name kept (by decide), projects, natures, buildSpec, filters,
    h.allLinks root name]

/-- The notes on a child of the root are the same. -/
private theorem notes (set : Links) (child : Element) :
    (g ["projectDescription"] child).notes set = child.notes set := by
  rw [Element.notes, Element.notes, h.name]
  -- Only build commands and linked resources are looked into when notes are made.
  split
  · rfl
  · rfl
  · rfl
  · rfl
  · rfl
  · rename_i name
    rw [h.children_of_named name (by decide), List.flatMap_map]
    simp only [h.commandProblems]
  · rename_i name
    have problems : ((g ["projectDescription"] child).named "link").flatMap
        Element.linkProblems = (child.named "link").flatMap Element.linkProblems := by
      rw [h.named name (by decide), List.flatMap_map]
      exact List.flatMap_congr fun l mem => h.linkProblems l (name_of_mem_named mem)
    rw [problems, h.links child name]
  · rfl

/-- The notes on children of the root are the same when the children are changed faithfully. -/
theorem notesOnChildren (set : Links) (children : List Element) :
    notesOnChildren set (children.map (g ["projectDescription"])) =
      notesOnChildren set children := by
  -- The links that are set grow along the children, and are the same for the changed ones.
  induction children generalizing set with
  | nil => rfl
  | cons child rest ih =>
    -- The child keeps its name, so it adds its links in both cases or in neither.
    have after : (if (g ["projectDescription"] child).name = "linkedResources"
        then set.insertMany (g ["projectDescription"] child).links else set) =
        if child.name = "linkedResources" then set.insertMany child.links else set := by
      rw [h.name]
      split
      · rename_i name
        rw [h.links child name]
      · rfl
    rw [List.map_cons, ProjectFile.notesOnChildren, ProjectFile.notesOnChildren, after, h.notes,
      ih]

end

end Faithful

/-! ## Notes on containers -/

/-- The notes on a build specification are the problems of its entries. -/
theorem notes_buildSpec [Uri.DomainNames] {set : Links} {child : Element}
    (name : child.name = "buildSpec") :
    child.notes set = (child.children.flatMap commandProblems).map .problem := by
  unfold notes
  split <;> simp_all

/-- The notes on linked resources are the problems of links, and then the links whose place is
    taken. -/
theorem notes_linkedResources [Uri.DomainNames] {set : Links} {child : Element}
    (name : child.name = "linkedResources") :
    child.notes set = (((child.named "link").flatMap linkProblems) ++
      duplicateProblems set child.links).map .problem := by
  unfold notes
  split <;> simp_all

end Element

end ProjectFile
