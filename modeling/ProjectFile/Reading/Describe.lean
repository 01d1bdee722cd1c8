import ProjectFile.Description.Basic
import ProjectFile.Reading.Tree

/-! # From the tree to the description

Each entry of a description is read on its own, and an entry that cannot be read is dropped
without a loss to the others.  What the entries say, and which problems they have, are separate
functions of the tree.

Where an entry can stand only once, the last one counts.  Linked resources are the exception:
they are gathered from all their containers. -/

namespace ProjectFile

open ProjectFile.Text

variable [Uri.DomainNames]

/-! ## Build commands -/

namespace Element

/-- The key and the value of an argument. -/
def setting? (e : Element) : Option (String × Option String) :=
  if e.name = "dictionary" then
    (e.lastValue? "key").map fun key => (key, some (e.lastValue "value"))
  else none

/-- The problems of an entry of the arguments. -/
def settingProblems (e : Element) : List Problem :=
  if e.name = "dictionary" then
    match e.lastValue? "key" with
    | some _ => []
    | none => [.missingKey]
  else [.strayArgument e.name]

/-- The entries of all the arguments of a command. -/
def settings (e : Element) : List Element :=
  (e.named "arguments").flatMap children

/-- The build command that an entry of the build specification gives. -/
def command? (e : Element) : Option BuildCommand :=
  if e.name = "buildCommand" then
    (e.lastValue? "name").map fun name =>
      { name, arguments := .ofList (e.settings.filterMap setting?) }
  else none

/-- The problems of an entry of the build specification. -/
def commandProblems (e : Element) : List Problem :=
  if e.name = "buildCommand" then
    match e.lastValue? "name" with
    | some _ => e.settings.flatMap settingProblems
    | none => [.unnamedCommand]
  else [.notACommand e.name]

/-! ## Linked resources -/

/-- The resource type that a text spells: the number of the type, with or without a plus. -/
def typeOfText? (text : String) : Option ResourceType :=
  (unsigned? wordBound text.toList).bind ResourceType.ofCode?

/-- Whether an element holds a location, in either form. -/
def isLocation (e : Element) : Bool :=
  e.name == "location" || e.name == "locationURI"

/-- The location that an element holds. -/
def location (e : Element) : Except LocationFault Uri :=
  if e.name = "location" then Uri.ofLocalPath e.value else Uri.ofText e.value

/-- The link that an element gives, or the problem for which it is dropped. -/
def link (e : Element) : Except Problem Link :=
  match e.lastValue? "name" with
  | none => .error .unnamedLink
  | some path =>
    -- Of all children with a location, in either form, the last one counts.
    match (e.children.filter isLocation).getLast? with
    | none => .error (.noLocation path)
    | some holder =>
      match holder.location with
      | .error fault => .error (.badLocation path fault)
      | .ok location => .ok { path, type? := typeOfText? (e.lastValue "type"), location }

/-- The problems of an element that should give a link. -/
def linkProblems (e : Element) : List Problem :=
  match e.link with
  | .error p => [p]
  | .ok link => if link.type? = none then [.badType link.path (e.lastValue "type")] else []

/-- The links in a container of linked resources. -/
def links (e : Element) : List Link :=
  (e.named "link").filterMap fun l => l.link.toOption

/-! ## Filters -/

/-- The matcher that an element gives. -/
def matcher (e : Element) : Matcher where
  id := e.lastValue "id"
  arguments := e.lastValue "arguments"

/-- The filter that an element gives. -/
def filter (e : Element) : Filter where
  id := e.lastValue "id"
  name := e.lastValue "name"
  type := e.lastValue "type"
  matcher? := (e.last? "matcher").map matcher

end Element

/-! ## The description -/

/-- What the last child with a name gives, or nothing if there is none. -/
def Element.fromLast (root : Element) (name : String) (f : Element → List α) : List α :=
  match root.last? name with
  | some e => f e
  | none => []

/-- The links of all the containers of linked resources below a root. -/
def Element.allLinks (root : Element) : List Link :=
  (root.named "linkedResources").flatMap Element.links

/-- The description that the root element gives. -/
def Element.description (root : Element) : Description where
  name? := (root.lastValue? "name").filter (· ≠ "")
  comment := root.lastValue "comment"
  projects := root.fromLast "projects" (·.values "project")
  natures := root.fromLast "natures" (·.values "nature")
  buildSpec := root.fromLast "buildSpec" (·.children.filterMap Element.command?)
  links := Links.empty.insertMany root.allLinks
  filters := root.fromLast "filteredResources" fun e => (e.named "filter").map Element.filter

/-- The problems of setting links one after the other: each that takes the place of one. -/
def duplicateProblems (set : Links) : List Link → List Problem
  | [] => []
  | link :: rest =>
    let later := duplicateProblems (set.insert link) rest
    if (set.get? link.path).isSome then .duplicateLink link.path :: later else later

/-- The notes on a child of the root, where `set` are the links of the children before it. -/
def Element.notes (set : Links) (child : Element) : List Note :=
  match child.name with
  | "name" => []
  | "comment" => []
  | "projects" => []
  | "natures" => []
  | "filteredResources" => []
  | "buildSpec" => (child.children.flatMap Element.commandProblems).map .problem
  | "linkedResources" =>
    (((child.named "link").flatMap Element.linkProblems) ++
      duplicateProblems set child.links).map .problem
  | other => [.unknownElement other]

/-- The notes on the children of the root, one after the other. -/
def notesOnChildren (set : Links) : List Element → List Note
  | [] => []
  | child :: rest =>
    let after := if child.name = "linkedResources" then set.insertMany child.links else set
    child.notes set ++ notesOnChildren after rest

/-! ## Documents -/

/-- What a document reads as. -/
structure Reading where
  description? : Option Description
  notes : List Note

/-- The problems of a reading, in the order in which they were found. -/
def Reading.problems (r : Reading) : List Problem :=
  r.notes.filterMap Note.problem?

/-- The reading of a document whose tree is given. -/
def Tree.reading (t : Tree) : Reading :=
  let found := t.problems.map Note.problem
  match t.root? with
  | none => ⟨none, found⟩
  | some root =>
    if root.name = "projectDescription" then
      ⟨some root.description, found ++ notesOnChildren .empty root.children⟩
    else ⟨none, found ++ [.wrongRoot root.name]⟩

/-- Reads a document. -/
def Reading.ofText (content : String) : Reading :=
  (Tree.ofScan keepsChildren (Markup.scan content.toList)).reading

end ProjectFile
