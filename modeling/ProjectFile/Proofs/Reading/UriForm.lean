import ProjectFile.Proofs.Reading.Skipping
import ProjectFile.Proofs.Reading.View
import ProjectFile.Proofs.Uri.Margin

/-!
# Locations in the form of URIs

The location of a link is given as a local path or as a URI.  If the URI of a path is read as
itself from its written form, the location may be given in either form: the link is the same, with
the same problems, and so are the description and the notes on it.

## Key results

- `Element.descriptionOf?_changeAt`, `Element.notesOn_changeAt`: a root is read as the root with
  its locations in the form of URIs
- `ElementView.uriForms`: the way to look at a tree that does not see in which form a location is
-/

namespace ProjectFile

/-- The path of the elements that are read as links. -/
def linkPath : List String :=
  ["projectDescription", "linkedResources", "link"]

/-- The names of the elements around the location of a link, innermost first. -/
def linkNames : List String :=
  linkPath.reverse

namespace Element

/-! ## Changes at the end of a path -/

/-- An element with a change to the elements that a path leads to from there. -/
def changeAt (f : Element → Element) : List String → Element → Element
  | [], e => f e
  | name :: path, e =>
    if e.name = name then { e with children := e.children.map (changeAt f path) } else e

variable {f : Element → Element} {name : String} {path : List String} {e : Element}

/-- An element that the path goes through is changed in its children. -/
private theorem changeAt_of_name (h : e.name = name) :
    changeAt f (name :: path) e = { e with children := e.children.map (changeAt f path) } := by
  rw [changeAt, if_pos h]

/-- An element that the path does not go through stays as it is. -/
private theorem changeAt_of_ne (h : e.name ≠ name) : changeAt f (name :: path) e = e := by
  rw [changeAt, if_neg h]

/-- A change further in leaves the name of an element. -/
@[simp] theorem name_changeAt (e : Element) : (changeAt f (name :: path) e).name = e.name := by
  rw [changeAt]
  split <;> rfl

/-- If it is the same to change an element twice, it is the same to change all of them twice. -/
private theorem changeAt_changeAt (idem : ∀ e, f (f e) = f e) (path : List String) (e : Element) :
    changeAt f path (changeAt f path e) = changeAt f path e := by
  induction path generalizing e with
  | nil => exact idem e
  | cons name path ih =>
    -- The name decides which elements are changed, and it stays.
    by_cases h : e.name = name
    · have changed : ({ e with children := e.children.map (changeAt f path) } : Element).name =
          name := h
      have twice : changeAt f path ∘ changeAt f path = changeAt f path := funext ih
      rw [changeAt_of_name h, changeAt_of_name changed, List.map_map, twice]
    · rw [changeAt_of_ne h, changeAt_of_ne h]

/-- A change that keeps all names. -/
private theorem filter_map_of_name {g : Element → Element} (same : ∀ e, (g e).name = e.name)
    (name : String) (es : List Element) :
    (es.map g).filter (·.name == name) = (es.filter (·.name == name)).map g := by
  have names : (fun e : Element => e.name == name) ∘ g = fun e => e.name == name := by
    funext e
    rw [Function.comp_apply, same]
  rw [List.filter_map, names]

/-- A change that leaves alone what has a name, and gives that name to nothing else. -/
private theorem filter_map_of_other {g : Element → Element} (same : ∀ e, e.name = name → g e = e)
    (other : ∀ e, (g e).name = name → e.name = name) (es : List Element) :
    (es.map g).filter (·.name == name) = es.filter (·.name == name) := by
  induction es with
  | nil => rfl
  | cons e es ih =>
    by_cases h : e.name = name
    · simp [h, same e h, ih]
    · simp [h, mt (other e) h, ih]

/-! ## One location -/

/-- An element with its location in the form of a URI, if it is given as a path and the URI is read
    as itself. -/
def inUriForm [Uri.DomainNames] (e : Element) : Element :=
  if e.name = "location" then
    match Uri.ofLocalPath e.value with
    | .ok u => if Uri.ofText u.render = .ok u then ⟨"locationURI", u.render, []⟩ else e
    | .error _ => e
  else e

/-- An element with a URI is not one with a path. -/
theorem uriElement_ne_location (text : String) :
    (⟨"locationURI", text, []⟩ : Element).name ≠ "location" :=
  show "locationURI" ≠ "location" by decide

section

variable [Uri.DomainNames]

/-- The element of a path that is accepted is given as its URI, if this is read as itself. -/
theorem inUriForm_of_ofLocalPath {u : Uri} (name : e.name = "location")
    (accepted : Uri.ofLocalPath e.value = .ok u) (again : Uri.ofText u.render = .ok u) :
    e.inUriForm = ⟨"locationURI", u.render, []⟩ := by
  rw [inUriForm, if_pos name, accepted]
  exact if_pos again

/-- Only an element with a path changes its form. -/
theorem inUriForm_of_ne (h : e.name ≠ "location") : e.inUriForm = e := by
  rw [inUriForm, if_neg h]

/-- An element stays as it is, or it has a path and is given as its URI. -/
private theorem inUriForm_cases (e : Element) :
    e.inUriForm = e ∨
      ∃ u, e.name = "location" ∧ Uri.ofLocalPath e.value = .ok u ∧ Uri.ofText u.render = .ok u ∧
        e.inUriForm = ⟨"locationURI", u.render, []⟩ := by
  by_cases name : e.name = "location"
  · cases accepted : Uri.ofLocalPath e.value with
    | ok u =>
      -- A URI that is read as another one is no other form of the path.
      by_cases again : Uri.ofText u.render = .ok u
      · exact .inr ⟨u, name, rfl, again, inUriForm_of_ofLocalPath name accepted again⟩
      · refine .inl ?_
        rw [inUriForm, if_pos name, accepted]
        exact if_neg again
    | error fault =>
      refine .inl ?_
      rw [inUriForm, if_pos name, accepted]
  · exact .inl (inUriForm_of_ne name)

/-- An element that has the form of a URI keeps it. -/
private theorem inUriForm_inUriForm (e : Element) : e.inUriForm.inUriForm = e.inUriForm := by
  rcases inUriForm_cases e with same | ⟨u, -, -, -, eq⟩
  · rw [same, same]
  · rw [eq, inUriForm_of_ne (uriElement_ne_location u.render)]

/-- An element is a location in either form, or in none. -/
private theorem isLocation_inUriForm (e : Element) : e.inUriForm.isLocation = e.isLocation := by
  rcases inUriForm_cases e with same | ⟨u, name, -, -, eq⟩
  · rw [same]
  · rw [eq, isLocation, isLocation, name]
    rfl

/-- In either form the element gives the same location. -/
private theorem location_inUriForm (e : Element) : e.inUriForm.location = e.location := by
  rcases inUriForm_cases e with same | ⟨u, name, accepted, again, eq⟩
  · rw [same]
  · rw [eq, location, location, if_neg (uriElement_ne_location u.render), if_pos name, accepted,
      value, Uri.ofText_trim, again]

/-- Only locations are changed, and they stay locations. -/
private theorem named_map_inUriForm (notLocation : name ≠ "location" ∧ name ≠ "locationURI")
    (es : List Element) :
    (es.map inUriForm).filter (·.name == name) = es.filter (·.name == name) := by
  refine filter_map_of_other (fun e h => inUriForm_of_ne (h ▸ notLocation.1)) (fun e h => ?_) es
  rcases inUriForm_cases e with same | ⟨u, -, -, -, eq⟩
  · rwa [same] at h
  · rw [eq] at h
    exact absurd h.symm notLocation.2

/-! ## Links -/

/-- What a link says but for its location is the same in either form. -/
private theorem lastValue?_changeAt (notLocation : name ≠ "location" ∧ name ≠ "locationURI")
    (e : Element) : (changeAt inUriForm ["link"] e).lastValue? name = e.lastValue? name := by
  by_cases h : e.name = "link"
  · have children := named_map_inUriForm notLocation e.children
    rw [changeAt_of_name h, lastValue?, lastValue?, last?, last?, named, named]
    exact congrArg (fun es : List Element => es.getLast?.map value) children
  · rw [changeAt_of_ne h]

/-- A link is the same, or is dropped for the same problem, in whichever form its locations are. -/
private theorem link_changeAt (e : Element) : (changeAt inUriForm ["link"] e).link = e.link := by
  have name : (changeAt inUriForm ["link"] e).lastValue? "name" = e.lastValue? "name" :=
    lastValue?_changeAt (by decide) e
  have type : (changeAt inUriForm ["link"] e).lastValue? "type" = e.lastValue? "type" :=
    lastValue?_changeAt (by decide) e
  -- The location of a link is that of the last child with one, in either form.
  have last : (((changeAt inUriForm ["link"] e).children.filter isLocation).getLast?).map location =
      (e.children.filter isLocation).getLast?.map location := by
    by_cases h : e.name = "link"
    · have kinds : isLocation ∘ inUriForm = isLocation := funext isLocation_inUriForm
      have locations : location ∘ inUriForm = location := funext location_inUriForm
      have children : (changeAt inUriForm ["link"] e).children = e.children.map inUriForm := by
        rw [changeAt_of_name h]
        rfl
      rw [children, List.filter_map, List.getLast?_map, Option.map_map, kinds, locations]
    · rw [changeAt_of_ne h]
  -- The last location may be another element, but the location that it holds is the same.
  rw [link, link, name, lastValue, lastValue, type]
  cases e.lastValue? "name" with
  | none => rfl
  | some path =>
    cases found : (e.children.filter isLocation).getLast? with
    | none =>
      rw [found, Option.map_none, Option.map_eq_none_iff] at last
      rw [last]
    | some holder =>
      rw [found, Option.map_some, Option.map_eq_some_iff] at last
      obtain ⟨changed, isLast, same⟩ := last
      simp only [isLast, same]

/-- A link has the same problems in either form. -/
private theorem linkProblems_changeAt (e : Element) :
    (changeAt inUriForm ["link"] e).linkProblems = e.linkProblems := by
  rw [linkProblems, linkProblems, link_changeAt, lastValue, lastValue,
    lastValue?_changeAt (by decide)]

/-! ## Containers of links -/

/-- The links of a container are those of it with each location in the form of a URI. -/
private theorem named_link_changeAt (h : e.name = "linkedResources") :
    (changeAt inUriForm ["linkedResources", "link"] e).named "link" =
      (e.named "link").map (changeAt inUriForm ["link"]) := by
  rw [changeAt_of_name h, named, named, filter_map_of_name name_changeAt]

/-- A container gives the same links. -/
private theorem links_changeAt (e : Element) :
    (changeAt inUriForm ["linkedResources", "link"] e).links = e.links := by
  by_cases h : e.name = "linkedResources"
  · rw [links, links, named_link_changeAt h, List.filterMap_map]
    exact List.filterMap_congr fun l _ => by rw [Function.comp_apply, link_changeAt]
  · rw [changeAt_of_ne h]

/-- A child of the root has the same notes on it. -/
private theorem notes_changeAt (set : Links) (e : Element) :
    (changeAt inUriForm ["linkedResources", "link"] e).notes set = e.notes set := by
  by_cases h : e.name = "linkedResources"
  · rw [notes_linkedResources ((name_changeAt e).trans h), notes_linkedResources h,
      links_changeAt, named_link_changeAt h, List.flatMap_map]
    congr 3
    exact funext linkProblems_changeAt
  · rw [changeAt_of_ne h]

/-! ## The root -/

/-- The notes on all children are the same, as the links that are set are. -/
private theorem notesOnChildren_changeAt (set : Links) (children : List Element) :
    notesOnChildren set (children.map (changeAt inUriForm ["linkedResources", "link"])) =
      notesOnChildren set children := by
  induction children generalizing set with
  | nil => rfl
  | cons child rest ih =>
    rw [List.map_cons, notesOnChildren, notesOnChildren, name_changeAt, links_changeAt,
      notes_changeAt, ih]

/-- A root gives the same description with its locations in either form. -/
private theorem description_changeAt (root : Element) :
    (changeAt inUriForm linkPath root).description = root.description := by
  by_cases h : root.name = "projectDescription"
  · let changed := root.children.map (changeAt inUriForm ["linkedResources", "link"])
    have read : changeAt inUriForm linkPath root = { root with children := changed } :=
      changeAt_of_name h
    -- Of the children of the root, only the containers of links are changed.
    have entries (name : String) (notLinks : name ≠ "linkedResources") :
        ({ root with children := changed } : Element).named name = root.named name :=
      filter_map_of_other (fun e named => changeAt_of_ne (named ▸ notLinks))
        (fun e named => (name_changeAt e).symm.trans named) _
    have containers : ({ root with children := changed } : Element).named "linkedResources" =
        (root.named "linkedResources").map (changeAt inUriForm ["linkedResources", "link"]) :=
      filter_map_of_name name_changeAt _ _
    have links : ({ root with children := changed } : Element).allLinks = root.allLinks := by
      rw [allLinks, allLinks, containers, List.flatMap_map]
      exact List.flatMap_congr fun c _ => links_changeAt c
    rw [read]
    simp only [description, lastValue, lastValue?, last?, fromLast, links,
      entries "name" (by decide), entries "comment" (by decide), entries "projects" (by decide),
      entries "natures" (by decide), entries "buildSpec" (by decide),
      entries "filteredResources" (by decide)]
  · rw [linkPath, changeAt_of_ne h]

/-- A root gives the description that it gives with its locations in the form of URIs. -/
theorem descriptionOf?_changeAt (root? : Option Element) :
    descriptionOf? (root?.map (changeAt inUriForm linkPath)) = descriptionOf? root? := by
  cases root? with
  | none => rfl
  | some root =>
    have name : (changeAt inUriForm linkPath root).name = root.name := name_changeAt root
    simp only [descriptionOf?, Option.map_some, Option.bind_some, name, description_changeAt]

/-- The notes on a root are those on it with its locations in the form of URIs. -/
theorem notesOn_changeAt (root? : Option Element) :
    notesOn (root?.map (changeAt inUriForm linkPath)) = notesOn root? := by
  cases root? with
  | none => rfl
  | some root =>
    have name : (changeAt inUriForm linkPath root).name = root.name := name_changeAt root
    simp only [notesOn, Option.map_some, name]
    split
    · rename_i isRoot
      rw [linkPath, changeAt_of_name isRoot, notesOnChildren_changeAt]
    · rfl

end

end Element

/-! ## The way to look at a tree -/

/-- What is left of a path behind two parts is what is left behind the second part, once the
    first is taken away. -/
private theorem isPrefixOf?_append (l l' path : List String) :
    (l ++ l').isPrefixOf? path = (l.isPrefixOf? path).bind l'.isPrefixOf? := by
  induction l generalizing path with
  | nil => rfl
  | cons n l ih =>
    cases path with
    | nil => rfl
    | cons m path =>
      rw [List.cons_append, List.isPrefixOf?, List.isPrefixOf?]
      split
      · exact ih path
      · rfl

namespace ElementView

open Element

/-- Looking at elements with a change to those that a path leads to. -/
def changedAt (path : List String) (f : Element → Element) (idem : ∀ e, f (f e) = f e) :
    ElementView where
  see around := (around.reverse.isPrefixOf? path).elim id (changeAt f)
  again around e := by
    cases around.reverse.isPrefixOf? path with
    | none => rfl
    | some rest => exact changeAt_changeAt idem rest e
  within around name text children := by
    -- Of the path there is one name less left for the children, if theirs is the next one.
    rw [List.reverse_cons, isPrefixOf?_append]
    cases around.reverse.isPrefixOf? path with
    | none => simp
    | some rest =>
      cases rest with
      | nil =>
        have behind : [name].isPrefixOf? ([] : List String) = none := rfl
        simp [behind]
      | cons next rest =>
        by_cases h : name = next
        · subst h
          have twice : changeAt f rest ∘ changeAt f rest = changeAt f rest :=
            funext (changeAt_changeAt idem rest)
          simp [changeAt, List.isPrefixOf?, twice]
        · simp [changeAt, List.isPrefixOf?, h]

section

variable [Uri.DomainNames]

/-- Looking at elements with the locations of links in the form of URIs. -/
def uriForms : ElementView :=
  changedAt linkPath inUriForm inUriForm_inUriForm

/-- From the root, the locations of all links are seen as URIs. -/
theorem see_uriForms_nil : uriForms.see [] = changeAt inUriForm linkPath := rfl

/-- Inside of a link, its locations are seen as URIs. -/
theorem see_uriForms_linkNames : uriForms.see linkNames = inUriForm := by
  have whole : linkNames.reverse.isPrefixOf? linkPath = some [] := by decide
  funext e
  change (linkNames.reverse.isPrefixOf? linkPath).elim id (changeAt inUriForm) e = e.inUriForm
  rw [whole]
  rfl

end

end ElementView

end ProjectFile
