import Mathlib.Data.List.Basic
import ProjectFile.Proofs.Document.Root
import ProjectFile.Proofs.Uri.Margin
import ProjectFile.Reading.Describe

/-!
# The normal form of a description

A document does not tell everything of the description that it is written from: the texts are
trimmed when they are read, an argument without a value has an empty one, and where the project is
stored is not written.  What is left is the normal form of the description.

The element of a description reads as that normal form, with one reservation.  A location that has
no local path is written as it is spelled, and is read as its spelling is parsed (`Uri.reread`).
Not every parsed URI is what its own spelling is parsed as: dots behind a broken drive stay in the
spelling, and are resolved when that is parsed in turn.

## Key results

- `Element.link_node`: what a written link is read as
- `Element.description_node`: what a written description is read as
- `Description.reread_eq_normalized`: that is its normal form, if the locations are stable
- `descriptionOf?_document`, `notesOn_document`: what the tree of a written document gives
-/

namespace ProjectFile

open ProjectFile.Markup ProjectFile.Text

/-! ## Normal forms -/

/-- The normal form of an argument: the key and the value are trimmed, and the value is there. -/
def normalEntry (entry : String × Option String) : String × Option String :=
  (trim entry.1, some (trim (entry.2.getD "")))

/-- The normal form of a command.  A key that is there already when it is trimmed keeps its place
    and takes the later value. -/
def BuildCommand.normalized (c : BuildCommand) : BuildCommand where
  name := trim c.name
  arguments := .ofList (c.arguments.entries.map normalEntry)

/-- The normal form of a link. -/
def Link.normalized (l : Link) : Link :=
  { l with path := trim l.path }

/-- The normal form of a matcher. -/
def Matcher.normalized (m : Matcher) : Matcher where
  id := trim m.id
  arguments := trim m.arguments

/-- The normal form of a filter. -/
def Filter.normalized (f : Filter) : Filter where
  id := trim f.id
  name := trim f.name
  type := trim f.type
  matcher? := f.matcher?.map Matcher.normalized

/-- The normal form of a description. -/
def Description.normalized (d : Description) : Description where
  name? := (d.name?.map trim).filter (· ≠ "")
  comment := trim d.comment
  location? := none
  projects := d.projects.map trim
  natures := d.natures.map trim
  buildSpec := d.buildSpec.map BuildCommand.normalized
  links := Links.empty.insertMany (d.links.toList.map Link.normalized)
  filters := d.filters.map Filter.normalized

/-! ## Reading again -/

section

variable [Uri.DomainNames]

/-- What the written form of a URI is read as.  A local path leads back to the URI, and any other
    URI is what its spelling is parsed as. -/
def Uri.reread (u : Uri) : Except LocationFault Uri :=
  match u.writtenPath? with
  | some _ => .ok u
  | none => Uri.ofText u.render

/-- What a written link is read as. -/
def Link.reread (l : Link) : Except Problem Link :=
  match l.location.reread with
  | .ok location => .ok { l.normalized with location }
  | .error fault => .error (.badLocation (trim l.path) fault)

/-- The problems of a written link. -/
def Link.rereadProblems (l : Link) : List Problem :=
  match l.reread with
  | .error p => [p]
  | .ok link => if link.type? = none then [.badType link.path ""] else []

/-- What a written description is read as. -/
def Description.reread (d : Description) : Description :=
  { d.normalized with
    links := Links.empty.insertMany (d.links.toList.filterMap fun l => l.reread.toOption) }

/-- A link is read with its type. -/
private theorem Link.type?_of_reread {l link : Link} (h : l.reread = .ok link) :
    link.type? = l.type? := by
  unfold Link.reread at h
  split at h
  · rw [Except.ok.injEq] at h
    rw [← h]
    rfl
  · simp at h

/-- A link whose location is what its own spelling is parsed as is read as its normal form. -/
theorem Link.reread_eq_normalized {l : Link}
    (stable : l.location.writtenPath? = none → Uri.parse l.location.render = .ok l.location) :
    l.reread = .ok l.normalized := by
  have location : l.location.reread = .ok l.location := by
    unfold Uri.reread
    split
    · rfl
    · rename_i unwritten
      exact Uri.ofText_render (stable unwritten)
  rw [Link.reread, location]
  rfl

/-- A description whose locations are stable is read as its normal form. -/
theorem Description.reread_eq_normalized {d : Description}
    (stable : ∀ l ∈ d.links.toList, l.location.writtenPath? = none →
      Uri.parse l.location.render = .ok l.location) : d.reread = d.normalized := by
  have links : (d.links.toList.filterMap fun l => l.reread.toOption) =
      d.links.toList.map Link.normalized := by
    rw [← List.filterMap_eq_map]
    apply List.filterMap_congr
    intro l h
    rw [Link.reread_eq_normalized (stable l h)]
    rfl
  rw [Description.reread, links]
  rfl

/-- The problems of written links whose locations are stable: those without a type have no valid
    one. -/
theorem flatMap_rereadProblems {links : List Link}
    (stable : ∀ l ∈ links, l.location.writtenPath? = none →
      Uri.parse l.location.render = .ok l.location) :
    links.flatMap Link.rereadProblems =
      (links.filter (·.type?.isNone)).map fun l => .badType (trim l.path) "" := by
  induction links with
  | nil => rfl
  | cons l rest ih =>
    have others := ih fun l h => stable l (by simp [h])
    rw [List.flatMap_cons, others, Link.rereadProblems,
      Link.reread_eq_normalized (stable l (by simp)), List.filter_cons]
    cases eq : l.type? <;> simp [Link.normalized, eq]

end

/-! ## Reading the elements of parts -/

/-- The name of a part. -/
def Node.name : Node → String
  | .leaf name _ => name
  | .block name _ => name

/-- The name of a leaf. -/
@[simp] theorem Node.name_leaf (name text : String) : (Node.leaf name text).name = name := rfl

/-- The name of a block. -/
@[simp] theorem Node.name_block (name : String) (nodes : List Node) :
    (Node.block name nodes).name = name := rfl

namespace Element

variable {separator : List Char} {depth : Nat} {name : String}

/-- The element of a part has its name. -/
@[simp] theorem name_element (node : Node) :
    (node.element separator depth).name = node.name := by
  cases node <;> simp [Node.element]

/-- The value of a leaf is its text, trimmed. -/
@[simp] theorem value_leaf (text : String) :
    ((Node.leaf name text).element separator depth).value = trim text := by
  rw [value, Node.element]

/-- The children of a block are the elements of its parts. -/
private theorem children_block (nodes : List Node) :
    ((Node.block name nodes).element separator depth).children =
      nodes.map (Node.element separator (depth + 1)) := by
  rw [Node.element, Node.elements_eq_map]

/-- The children of a block with a name are those of its parts with the name. -/
private theorem named_block (nodes : List Node) (child : String) :
    ((Node.block name nodes).element separator depth).named child =
      (nodes.filter (·.name == child)).map (Node.element separator (depth + 1)) := by
  rw [named, children_block, List.filter_map]
  congr 2
  funext node
  simp

/-- The last child of a block with a name is that of its last part with the name. -/
private theorem last?_block (nodes : List Node) (child : String) :
    ((Node.block name nodes).element separator depth).last? child =
      (nodes.filter (·.name == child)).getLast?.map (Node.element separator (depth + 1)) := by
  rw [last?, named_block, List.getLast?_map]

/-- The value of the only leaf with a name is the trimmed text of the leaf. -/
private theorem lastValue?_block {nodes : List Node} {child text : String}
    (only : nodes.filter (·.name == child) = [.leaf child text]) :
    ((Node.block name nodes).element separator depth).lastValue? child = some (trim text) := by
  rw [lastValue?, last?_block, only]
  simp

/-- The value of a leaf that is written once. -/
private theorem lastValue_block {nodes : List Node} {child text : String}
    (only : nodes.filter (·.name == child) = [.leaf child text]) :
    ((Node.block name nodes).element separator depth).lastValue child = trim text := by
  rw [lastValue, lastValue?_block only, Option.getD_some]

/-- The children of a block of like parts are the elements of the parts. -/
private theorem named_block_map {α : Type _} {f : α → Node} {child : String}
    (named : ∀ a, (f a).name = child) (as : List α) :
    ((Node.block name (as.map f)).element separator depth).named child =
      as.map fun a => (f a).element separator (depth + 1) := by
  have all : (as.map f).filter (·.name == child) = as.map f := by
    rw [List.filter_eq_self]
    intro node h
    obtain ⟨a, -, rfl⟩ := List.mem_map.1 h
    simp [named]
  rw [named_block, all, List.map_map]
  rfl

/-- The values of a list of leaves with one name are their trimmed texts. -/
private theorem values_leaves (child : String) (texts : List String) :
    ((Node.block name (texts.map (.leaf child))).element separator depth).values child =
      texts.map trim := by
  rw [values, named_block_map (f := Node.leaf child) fun _ => rfl, List.map_map]
  apply List.map_congr_left
  intro text _
  rw [Function.comp_apply, value_leaf]

/-! ### Build commands -/

/-- A written argument is read as its normal form. -/
private theorem setting?_argumentNode (entry : String × Option String) :
    ((argumentNode entry).element separator depth).setting? = some (normalEntry entry) := by
  have key : ((argumentNode entry).element separator depth).lastValue? "key" =
      some (trim entry.1) := lastValue?_block (by simp)
  have value : ((argumentNode entry).element separator depth).lastValue "value" =
      trim (entry.2.getD "") := lastValue_block (by simp)
  rw [setting?, key, value, name_element]
  rfl

/-- A written argument has a key, so it has no problem. -/
private theorem settingProblems_argumentNode (entry : String × Option String) :
    ((argumentNode entry).element separator depth).settingProblems = [] := by
  have key : ((argumentNode entry).element separator depth).lastValue? "key" =
      some (trim entry.1) := lastValue?_block (by simp)
  rw [settingProblems, key, name_element]
  rfl

/-- The arguments of a written command are those of the command. -/
private theorem settings_node (c : BuildCommand) :
    (c.node.element separator depth).settings =
      c.arguments.entries.map fun entry =>
        (argumentNode entry).element separator (depth + 2) := by
  have only : [Node.leaf "name" c.name,
      .block "arguments" (c.arguments.entries.map argumentNode)].filter (·.name == "arguments") =
      [.block "arguments" (c.arguments.entries.map argumentNode)] := by
    simp
  rw [settings, BuildCommand.node, named_block, only, List.map_singleton, List.flatMap_singleton,
    children_block, List.map_map]
  rfl

/-- A written command is read as its normal form. -/
theorem command?_node (c : BuildCommand) :
    (c.node.element separator depth).command? = some c.normalized := by
  have name : (c.node.element separator depth).lastValue? "name" = some (trim c.name) :=
    lastValue?_block (by simp)
  have settings : (c.node.element separator depth).settings.filterMap setting? =
      c.arguments.entries.map normalEntry := by
    rw [settings_node, List.filterMap_map, ← List.filterMap_eq_map]
    apply List.filterMap_congr
    intro entry _
    exact setting?_argumentNode entry
  rw [command?, name, settings, name_element]
  rfl

/-- A written command has no problem. -/
private theorem commandProblems_node (c : BuildCommand) :
    (c.node.element separator depth).commandProblems = [] := by
  have name : (c.node.element separator depth).lastValue? "name" = some (trim c.name) :=
    lastValue?_block (by simp)
  rw [commandProblems, name, settings_node, name_element, List.flatMap_map]
  simp [settingProblems_argumentNode, BuildCommand.node]

/-! ### Linked resources -/

end Element

/-- A local path is written only where it leads back to the URI. -/
private theorem Uri.ofLocalPath_of_writtenPath? {u : Uri} {path : String}
    (h : u.writtenPath? = some path) : Uri.ofLocalPath path = .ok u := by
  unfold Uri.writtenPath? at h
  obtain ⟨-, back⟩ := Option.filter_eq_some_iff.1 h
  split at back
  · rename_i v eq
    rw [eq, eq_of_beq back]
  · simp at back

namespace Element

variable {separator : List Char} {depth : Nat} {name : String}

/-- A location is written in one form or the other. -/
private theorem isLocation_locationNode (u : Uri) :
    isLocation ((locationNode u).element separator depth) = true := by
  unfold isLocation locationNode
  split <;> simp

/-- A written location is read as the location that it leads back to, in either form. -/
private theorem location_locationNode [Uri.DomainNames] (u : Uri) :
    ((locationNode u).element separator depth).location = u.reread := by
  unfold locationNode Uri.reread
  cases written : u.writtenPath? with
  | some path =>
    simp only
    rw [location, name_element, value_leaf, Node.name_leaf, if_pos rfl]
    exact Uri.ofLocalPath_trim (Uri.ofLocalPath_of_writtenPath? written)
  | none =>
    simp only
    rw [location, name_element, value_leaf, Node.name_leaf, if_neg (by decide), Uri.ofText_trim]

/-- The number of a type is read as the type. -/
private theorem typeOfText?_code (type : ResourceType) :
    typeOfText? (trim (toString type.code)) = some type := by
  cases type <;> decide

/-- The type of a written link is its number, or not there. -/
private theorem lastValue_type_node (l : Link) :
    (l.node.element separator depth).lastValue "type" =
      match l.type? with
      | some type => trim (toString type.code)
      | none => "" := by
  have location : ((locationNode l.location).name == "type") = false := by
    unfold locationNode
    split <;> simp
  cases eq : l.type? with
  | none =>
    rw [lastValue, lastValue?, Link.node, last?_block]
    simp [eq, typeNodes, location]
  | some type =>
    apply lastValue_block
    simp [eq, typeNodes, location]

/-- A written link has one location. -/
private theorem holders_node (l : Link) :
    (l.node.element separator depth).children.filter isLocation =
      [(locationNode l.location).element separator (depth + 1)] := by
  have path : ∀ text,
      isLocation ((Node.leaf "name" text).element separator (depth + 1)) = false := by
    simp [isLocation]
  have type : ∀ text,
      isLocation ((Node.leaf "type" text).element separator (depth + 1)) = false := by
    simp [isLocation]
  rw [Link.node, children_block]
  cases l.type? <;> simp [typeNodes, path, type, isLocation_locationNode]

/-- A written link is read with its path trimmed, at the location that is read. -/
theorem link_node [Uri.DomainNames] (l : Link) :
    (l.node.element separator depth).link = l.reread := by
  have path : (l.node.element separator depth).lastValue? "name" = some (trim l.path) := by
    have location : ((locationNode l.location).name == "name") = false := by
      unfold locationNode
      split <;> simp
    apply lastValue?_block
    cases l.type? <;> simp [typeNodes, location]
  have type : typeOfText? ((l.node.element separator depth).lastValue "type") = l.type? := by
    rw [lastValue_type_node]
    cases l.type? with
    | none => decide
    | some type => exact typeOfText?_code type
  -- The location decides whether the link is read or dropped.
  rw [link, path, holders_node, type, Link.reread]
  simp only [List.getLast?_singleton, location_locationNode]
  cases l.location.reread <;> rfl

/-- The problems of a written link are those of its location and of its type. -/
private theorem linkProblems_node [Uri.DomainNames] (l : Link) :
    (l.node.element separator depth).linkProblems = l.rereadProblems := by
  rw [linkProblems, link_node, Link.rereadProblems]
  cases eq : l.reread with
  | error p => rfl
  | ok link =>
    simp only [Link.type?_of_reread eq]
    split
    · rename_i untyped
      rw [lastValue_type_node, untyped]
    · rfl

/-! ### Filters -/

/-- A written matcher is read as its normal form. -/
private theorem matcher_node (m : Matcher) :
    ((Node.block "matcher" [.leaf "id" m.id, .leaf "arguments" m.arguments]).element separator
      depth).matcher = m.normalized := by
  have id : ((Node.block "matcher" [.leaf "id" m.id, .leaf "arguments" m.arguments]).element
      separator depth).lastValue "id" = trim m.id := lastValue_block (by simp)
  have arguments : ((Node.block "matcher"
      [.leaf "id" m.id, .leaf "arguments" m.arguments]).element separator depth).lastValue
        "arguments" = trim m.arguments := lastValue_block (by simp)
  rw [matcher, id, arguments, Matcher.normalized]

/-- A written filter is read as its normal form. -/
theorem filter_node (f : Filter) : (f.node.element separator depth).filter = f.normalized := by
  have id : (f.node.element separator depth).lastValue "id" = trim f.id := by
    apply lastValue_block
    cases f.matcher? <;> simp [matcherNodes]
  have name : (f.node.element separator depth).lastValue "name" = trim f.name := by
    apply lastValue_block
    cases f.matcher? <;> simp [matcherNodes]
  have type : (f.node.element separator depth).lastValue "type" = trim f.type := by
    apply lastValue_block
    cases f.matcher? <;> simp [matcherNodes]
  -- With or without a matcher, the names of the parts tell them apart.
  have matcher : ((f.node.element separator depth).last? "matcher").map matcher =
      f.matcher?.map Matcher.normalized := by
    rw [Filter.node, last?_block]
    cases f.matcher? with
    | none => simp [matcherNodes]
    | some m =>
      simp [matcherNodes, matcher_node]
  rw [filter, id, name, type, matcher]
  rfl

/-- The links of a written container are those whose locations are read. -/
private theorem links_block [Uri.DomainNames] (links : List Link) :
    ((Node.block name (links.map Link.node)).element separator depth).links =
      links.filterMap fun l => l.reread.toOption := by
  rw [Element.links, named_block_map (f := Link.node) fun _ => rfl, List.filterMap_map]
  apply List.filterMap_congr
  intro l _
  rw [Function.comp_apply, link_node]

/-- The problems of a block of links are those of the links. -/
private theorem linkProblems_block [Uri.DomainNames] (links : List Link) :
    (((Node.block name (links.map Link.node)).element separator depth).named "link").flatMap
      linkProblems = links.flatMap Link.rereadProblems := by
  rw [named_block_map (f := Link.node) fun _ => rfl, List.flatMap_map]
  simp only [linkProblems_node]

end Element

/-! ## The root -/

/-- The parts of a description that are always written. -/
def Description.fixedNodes (d : Description) : List Node :=
  [.leaf "name" (d.name?.getD ""),
    .leaf "comment" d.comment,
    .block "projects" (d.projects.map (.leaf "project")),
    .block "buildSpec" (d.buildSpec.map BuildCommand.node),
    .block "natures" (d.natures.map (.leaf "nature"))]

/-- The parts of a description that are left out if they hold nothing. -/
def Description.optionalNodes (d : Description) : List Node :=
  optionalBlock "linkedResources" (d.links.toList.map Link.node) ++
    optionalBlock "filteredResources" (d.filters.map Filter.node)

/-- The part of a description: what is always written, and then what may be left out. -/
theorem Description.node_eq (d : Description) :
    d.node = .block "projectDescription" (d.fixedNodes ++ d.optionalNodes) := by
  rw [node, fixedNodes, optionalNodes, List.append_assoc]

/-- A block that may be left out has its own name only. -/
theorem filter_optionalBlock (block child : String) (nodes : List Node) :
    (optionalBlock block nodes).filter (·.name == child) =
      if block = child then optionalBlock block nodes else [] := by
  unfold optionalBlock
  split
  · simp
  · split
    · rename_i same
      simp [same]
    · rename_i other
      simp [other]

/-- The parts of a description with a name are those always written, or a block that may be left
    out. -/
theorem Description.filter_nodes (d : Description) (child : String) :
    (d.fixedNodes ++ d.optionalNodes).filter (·.name == child) =
      d.fixedNodes.filter (·.name == child) ++
        ((if "linkedResources" = child then
            optionalBlock "linkedResources" (d.links.toList.map Link.node) else []) ++
          if "filteredResources" = child then
            optionalBlock "filteredResources" (d.filters.map Filter.node) else []) := by
  rw [List.filter_append, optionalNodes, List.filter_append, filter_optionalBlock,
    filter_optionalBlock]

namespace Element

variable (separator : List Char) (depth : Nat) (d : Description)

/-- The root has the name of a description. -/
private theorem name_description_node :
    (d.node.element separator depth).name = "projectDescription" := by
  rw [name_element, Description.node_eq, Node.name_block]

/-- The only child with the name of a part that is always written is that part. -/
private theorem last?_node (node : Node) (only : d.fixedNodes.filter (·.name == node.name) = [node])
    (notLinks : "linkedResources" ≠ node.name) (notFilters : "filteredResources" ≠ node.name) :
    (d.node.element separator depth).last? node.name =
      some (node.element separator (depth + 1)) := by
  rw [Description.node_eq, last?_block, Description.filter_nodes, only, if_neg notLinks,
    if_neg notFilters]
  rfl

/-- The name is always written, as an empty one if there is none. -/
private theorem lastValue?_name_node :
    (d.node.element separator depth).lastValue? "name" = some (trim (d.name?.getD "")) := by
  have child := last?_node separator depth d (.leaf "name" (d.name?.getD ""))
    (by simp [Description.fixedNodes]) (by simp) (by simp)
  rw [Node.name_leaf] at child
  rw [lastValue?, child, Option.map_some, value_leaf]

/-- The comment is read trimmed. -/
private theorem lastValue_comment_node :
    (d.node.element separator depth).lastValue "comment" = trim d.comment := by
  have child := last?_node separator depth d (.leaf "comment" d.comment)
    (by simp [Description.fixedNodes]) (by simp) (by simp)
  rw [Node.name_leaf] at child
  rw [lastValue, lastValue?, child, Option.map_some, value_leaf, Option.getD_some]

/-- The projects are read trimmed. -/
private theorem projects_node :
    (d.node.element separator depth).fromLast "projects" (·.values "project") =
      d.projects.map trim := by
  have child := last?_node separator depth d (.block "projects" (d.projects.map (.leaf "project")))
    (by simp [Description.fixedNodes]) (by simp) (by simp)
  rw [Node.name_block] at child
  rw [fromLast, child]
  exact values_leaves _ _

/-- The natures are read trimmed. -/
private theorem natures_node :
    (d.node.element separator depth).fromLast "natures" (·.values "nature") =
      d.natures.map trim := by
  have child := last?_node separator depth d (.block "natures" (d.natures.map (.leaf "nature")))
    (by simp [Description.fixedNodes]) (by simp) (by simp)
  rw [Node.name_block] at child
  rw [fromLast, child]
  exact values_leaves _ _

/-- The commands are read as their normal forms. -/
private theorem buildSpec_node :
    (d.node.element separator depth).fromLast "buildSpec" (·.children.filterMap command?) =
      d.buildSpec.map BuildCommand.normalized := by
  have child := last?_node separator depth d
    (.block "buildSpec" (d.buildSpec.map BuildCommand.node))
    (by simp [Description.fixedNodes]) (by simp) (by simp)
  rw [Node.name_block] at child
  rw [fromLast, child]
  simp only
  rw [children_block, List.map_map, List.filterMap_map, ← List.filterMap_eq_map]
  apply List.filterMap_congr
  intro c _
  exact command?_node c

/-- The filters are read as their normal forms, also if they are left out. -/
private theorem filters_node :
    ((d.node.element separator depth).fromLast "filteredResources" fun e =>
      (e.named "filter").map filter) = d.filters.map Filter.normalized := by
  have fixed : d.fixedNodes.filter (·.name == "filteredResources") = [] := by
    simp [Description.fixedNodes]
  rw [fromLast, Description.node_eq, last?_block, Description.filter_nodes, fixed,
    if_neg (by decide), if_pos rfl]
  -- Without filters no block is written for them.
  cases filters : d.filters with
  | nil => rfl
  | cons f rest =>
    have all := @named_block_map separator (depth + 1) "filteredResources" _ Filter.node _
      (fun _ => rfl) (f :: rest)
    simp only [List.map_cons] at all
    simp [optionalBlock, all, filter_node]

section

variable [Uri.DomainNames]

/-- The links are those whose locations are read, also if the block is left out. -/
private theorem allLinks_node :
    (d.node.element separator depth).allLinks =
      d.links.toList.filterMap fun l => l.reread.toOption := by
  have fixed : d.fixedNodes.filter (·.name == "linkedResources") = [] := by
    simp [Description.fixedNodes]
  rw [allLinks, Description.node_eq, named_block, Description.filter_nodes, fixed, if_pos rfl,
    if_neg (by decide)]
  -- Without links no block is written for them.
  cases links : d.links.toList with
  | nil => rfl
  | cons l rest =>
    have all := @links_block separator (depth + 1) "linkedResources" _ (l :: rest)
    simp only [List.map_cons] at all
    simp [optionalBlock, all]

/-- A written description is read as its normal form, but for the locations of links. -/
theorem description_node : (d.node.element separator depth).description = d.reread := by
  -- A description without a name is written with an empty one, which is read as none.
  have name : (some (trim (d.name?.getD ""))).filter (· ≠ "") =
      (d.name?.map trim).filter (· ≠ "") := by
    cases d.name? with
    | none => decide
    | some name => rfl
  rw [description, lastValue?_name_node, lastValue_comment_node, projects_node, natures_node,
    buildSpec_node, allLinks_node, filters_node, name, Description.reread, Description.normalized]

/-! ### Notes on the root -/

/-- There are no notes on a child of the root that lists neither commands nor links. -/
private theorem notes_of_plain {set : Links} {child : Element}
    (plain : child.name ∈ ["name", "comment", "projects", "natures", "filteredResources"]) :
    child.notes set = [] := by
  unfold notes
  split <;> simp_all

/-- Children that list no links change nothing about those behind them. -/
private theorem notesOnChildren_append (set : Links) {es : List Element} (rest : List Element)
    (other : ∀ e ∈ es, e.name ≠ "linkedResources") :
    notesOnChildren set (es ++ rest) =
      es.flatMap (Element.notes set) ++ notesOnChildren set rest := by
  induction es with
  | nil => rfl
  | cons e es ih =>
    have here := other e (by simp)
    rw [List.cons_append, notesOnChildren, if_neg here, ih fun e he => other e (by simp [he]),
      List.flatMap_cons, List.append_assoc]

/-- No part that is always written has a problem. -/
private theorem notes_fixedNodes {d : Description} (set : Links) {node : Node}
    (h : node ∈ d.fixedNodes) :
    (node.element separator depth).notes set = [] ∧ node.name ≠ "linkedResources" := by
  simp only [Description.fixedNodes, List.mem_cons, List.not_mem_nil, or_false] at h
  rcases h with rfl | rfl | rfl | rfl | rfl
  · exact ⟨notes_of_plain (by simp), by simp⟩
  · exact ⟨notes_of_plain (by simp), by simp⟩
  · exact ⟨notes_of_plain (by simp), by simp⟩
  · -- The build specification: every command is written with a name, every argument with a key.
    refine ⟨?_, by simp⟩
    rw [notes_buildSpec (by simp), children_block, List.map_map, List.flatMap_map]
    simp [commandProblems_node]
  · exact ⟨notes_of_plain (by simp), by simp⟩

/-- The notes on the element of a description are about its links only. -/
private theorem notesOnChildren_node :
    notesOnChildren .empty (d.node.element separator depth).children =
      (d.links.toList.flatMap Link.rereadProblems ++
        duplicateProblems .empty (d.links.toList.filterMap fun l => l.reread.toOption)).map
        .problem := by
  have fixedNotes : (d.fixedNodes.map (Node.element separator (depth + 1))).flatMap
      (Element.notes .empty) = [] := by
    rw [List.flatMap_map, List.flatMap_eq_nil_iff]
    intro node h
    exact (notes_fixedNodes separator (depth + 1) .empty h).1
  have filterNotes : ∀ set, notesOnChildren set
      ((optionalBlock "filteredResources" (d.filters.map Filter.node)).map
        (Node.element separator (depth + 1))) = [] := by
    intro set
    unfold optionalBlock
    split
    · rfl
    · rw [List.map_singleton, notesOnChildren, notes_of_plain (by simp)]
      rfl
  rw [Description.node_eq, children_block, List.map_append, notesOnChildren_append, fixedNotes,
    List.nil_append, Description.optionalNodes, List.map_append]
  · -- Without links no block is written for them, and nothing is looked for in it.
    cases links : d.links.toList with
    | nil =>
      rw [List.map_nil, optionalBlock, if_pos (by rfl), List.map_nil, List.nil_append, filterNotes]
      rfl
    | cons l rest =>
      rw [optionalBlock, if_neg (by simp), List.map_singleton, List.singleton_append,
        notesOnChildren, filterNotes, List.append_nil, notes_linkedResources (by simp),
        linkProblems_block, links_block]
  · intro e he
    obtain ⟨node, h, rfl⟩ := List.mem_map.1 he
    rw [name_element]
    exact (notes_fixedNodes separator depth .empty h).2

end

end Element

/-- What the whole tree of a written document gives. -/
theorem descriptionOf?_document [Uri.DomainNames] {d : Description} {s : String}
    (plain : ∀ c ∈ s.toList, c ≠ '<') :
    descriptionOf? (Tree.whole (scan (d.document s).toList)).root? = some d.reread := by
  rw [root_whole_document d plain, descriptionOf?, Option.bind_some,
    if_pos (Element.name_description_node _ _ _), Element.description_node]

/-- The notes on the root of a written document are about its links only. -/
theorem notesOn_document [Uri.DomainNames] {d : Description} {s : String}
    (plain : ∀ c ∈ s.toList, c ≠ '<') :
    notesOn (Tree.whole (scan (d.document s).toList)).root? =
      (d.links.toList.flatMap Link.rereadProblems ++
        duplicateProblems .empty (d.links.toList.filterMap fun l => l.reread.toOption)).map
        .problem := by
  rw [root_whole_document d plain]
  simp only [notesOn, Element.name_description_node, if_pos]
  exact Element.notesOnChildren_node _ _ _

end ProjectFile
