import ProjectFile.Proofs.Document.CutOff
import ProjectFile.Proofs.Document.NormalForm

/-!
# What a document that is cut off says

A document that is cut off inside of its root says the beginning of what the whole document says.
Each list of entries has the entries of the whole one up to the cut; only the last of them may be
another one, since it is read from an element that is cut off (`Beginning`).  A link that is cut
off may take no place but its own: all other links are those of the whole document.

## Key results

- `Node.CutAll.beginning`: what is read of parts that are cut off
- `Reading.ofText_front`: what a document that is cut off is read as
-/

namespace ProjectFile

open ProjectFile.Markup ProjectFile.Text

variable {separator : List Char} {depth : Nat}

/-! ## Beginnings of lists -/

/-- Whether a list is no longer than another one and starts like it, but for its last entry. -/
def Beginning {α : Type _} (xs ys : List α) : Prop :=
  xs.length ≤ ys.length ∧ xs.dropLast <+: ys

section
variable {α : Type _} {xs ys : List α}

/-- No entries are a beginning. -/
private theorem beginning_nil (ys : List α) : Beginning [] ys :=
  ⟨Nat.zero_le _, List.nil_prefix⟩

/-- One entry, whatever it is, is a beginning of some entries. -/
private theorem beginning_singleton (x y : α) (ys : List α) : Beginning [x] (y :: ys) :=
  ⟨by simp, List.nil_prefix⟩

/-- A beginning stays one behind an entry that both lists have. -/
private theorem Beginning.cons (h : Beginning xs ys) (y : α) : Beginning (y :: xs) (y :: ys) := by
  refine ⟨Nat.succ_le_succ h.1, ?_⟩
  cases xs with
  | nil => exact List.nil_prefix
  | cons x xs =>
    rw [List.dropLast_cons_cons]
    exact (List.prefix_cons_inj y).2 h.2

end

/-! ## Entries -/

/-- What is read of the elements of entries that are cut off is a beginning of what is read of
    those of all entries. -/
theorem Node.CutAll.beginning {α β : Type _} {part : α → Node} {read : Element → Option β}
    {value : α → β} {as : List α} {es : List Element}
    (h : CutAll separator depth (as.map part) es)
    (each : ∀ a ∈ as, read ((part a).element separator depth) = some (value a)) :
    Beginning (es.filterMap read) (as.map value) := by
  -- The elements that are left are those of the first entries.
  induction as generalizing es with
  | nil =>
    cases h
    exact beginning_nil _
  | cons a rest ih =>
    rw [List.map_cons] at h ⊢
    cases h with
    | none => exact beginning_nil _
    | @last _ _ _ e cut =>
      -- Whatever the last element is read as, it is one entry at most.
      cases value : read e with
      | none =>
        rw [List.filterMap_cons_none value]
        exact beginning_nil _
      | some b =>
        rw [List.filterMap_cons_some value]
        exact beginning_singleton _ _ _
    | whole later =>
      rw [List.filterMap_cons_some (each a (by simp))]
      exact (ih later fun a ha => each a (by simp [ha])).cons _

/-- The same for what is read of the elements with a name, where all entries have that name. -/
private theorem Node.CutAll.beginning_named {α β : Type _} {part : α → Node}
    {read : Element → Option β} {value : α → β} {as : List α} {e : Element} {name : String}
    (h : CutAll separator depth (as.map part) e.children) (named : ∀ a, (part a).name = name)
    (each : ∀ a ∈ as, read ((part a).element separator depth) = some (value a)) :
    Beginning ((e.named name).filterMap read) (as.map value) := by
  have all : (as.map part).filter (·.name == name) = as.map part := by
    rw [List.filter_eq_self]
    intro node mem
    obtain ⟨a, -, rfl⟩ := List.mem_map.1 mem
    simp [named]
  have kept := h.named name
  rw [all] at kept
  exact kept.beginning each

/-- What is read of the elements with a name that are left is a beginning of what is read of all
    of them. -/
private theorem Node.CutAll.beginning_named_map {α β : Type _} {part : α → Node}
    {read : Element → β} {value : α → β} {as : List α} {e : Element} {name : String}
    (h : CutAll separator depth (as.map part) e.children) (named : ∀ a, (part a).name = name)
    (each : ∀ a, read ((part a).element separator depth) = value a) :
    Beginning ((e.named name).map read) (as.map value) := by
  rw [← List.filterMap_eq_map]
  exact h.beginning_named named fun a _ => congrArg some (each a)

/-! ## Containers -/

/-- The children of a block that is cut off are cut off. -/
private theorem Node.Cut.children {name : String} {nodes : List Node} {e : Element}
    (h : Cut separator depth (.block name nodes) e) :
    CutAll separator (depth + 1) nodes e.children := by
  cases h with
  | block held inner => exact inner

/-- Of one part nothing is left, or its element, which may be cut off. -/
private theorem Node.CutAll.of_singleton {node : Node} {es : List Element}
    (h : CutAll separator depth [node] es) :
    es = [] ∨ ∃ e, es = [e] ∧ node.Cut separator depth e := by
  cases h with
  | none => exact .inl rfl
  | last cut => exact .inr ⟨_, rfl, cut⟩
  | whole later =>
    cases later
    exact .inr ⟨_, rfl, node.cut_element depth⟩

namespace Element

variable {root : Element} {nodes parts : List Node} {container : String}

/-- A container that is written at most once is there at most once, and is cut off as all is. -/
private theorem named_of_cutAll (h : Node.CutAll separator depth nodes root.children)
    (only : nodes.filter (·.name == container) = [] ∨
      nodes.filter (·.name == container) = [.block container parts]) :
    root.named container = [] ∨ ∃ e, root.named container = [e] ∧
      Node.CutAll separator (depth + 1) parts e.children := by
  have left := h.named container
  rcases only with absent | written
  · rw [absent] at left
    cases eq : root.children.filter (·.name == container) with
    | nil => exact .inl eq
    | cons e es =>
      rw [eq] at left
      cases left
  · rw [written] at left
    exact left.of_singleton.imp_right fun ⟨e, eq, cut⟩ => ⟨e, eq, cut.children⟩

/-- What is read of a container that is cut off is a beginning, also if nothing is left of it. -/
private theorem beginning_fromLast {α : Type _} {f : Element → List α} {ys : List α}
    (h : Node.CutAll separator depth nodes root.children)
    (only : nodes.filter (·.name == container) = [] ∨
      nodes.filter (·.name == container) = [.block container parts])
    (each : ∀ e, Node.CutAll separator (depth + 1) parts e.children → Beginning (f e) ys) :
    Beginning (root.fromLast container f) ys := by
  rw [fromLast, last?]
  rcases named_of_cutAll h only with absent | ⟨e, one, cut⟩
  · rw [absent]
    exact beginning_nil _
  · rw [one]
    exact each e cut

end Element

/-! ## The description -/

/-- A block that may be left out is written once if it is there. -/
private theorem optionalBlock_eq (name : String) (nodes : List Node) :
    optionalBlock name nodes = [] ∨ optionalBlock name nodes = [.block name nodes] := by
  unfold optionalBlock
  split
  · exact .inl rfl
  · exact .inr rfl

namespace Element

variable {d : Description} {root : Element} {container : String}
  (cut : d.node.Cut separator depth root)
include cut

/-- The children of a root that is cut off are cut off. -/
private theorem cutAll_of_cut :
    Node.CutAll separator (depth + 1) (d.fixedNodes ++ d.optionalNodes) root.children := by
  rw [Description.node_eq] at cut
  exact cut.children

/-- What is read of a container that is always written is a beginning. -/
private theorem beginning_fixed {α : Type _} {parts : List Node} {f : Element → List α}
    {ys : List α} (only : d.fixedNodes.filter (·.name == container) = [.block container parts])
    (absent : d.optionalNodes.filter (·.name == container) = [])
    (each : ∀ e, Node.CutAll separator (depth + 2) parts e.children → Beginning (f e) ys) :
    Beginning (root.fromLast container f) ys := by
  refine beginning_fromLast (cutAll_of_cut cut) (.inr ?_) each
  rw [List.filter_append, only, absent, List.append_nil]

/-- The projects that are left. -/
private theorem beginning_projects :
    Beginning (root.fromLast "projects" (·.values "project")) (d.projects.map trim) :=
  beginning_fixed cut (by simp [Description.fixedNodes])
    (by simp [Description.optionalNodes, filter_optionalBlock]) fun _ inner =>
      inner.beginning_named_map (fun _ => rfl) value_leaf

/-- The natures that are left. -/
private theorem beginning_natures :
    Beginning (root.fromLast "natures" (·.values "nature")) (d.natures.map trim) :=
  beginning_fixed cut (by simp [Description.fixedNodes])
    (by simp [Description.optionalNodes, filter_optionalBlock]) fun _ inner =>
      inner.beginning_named_map (fun _ => rfl) value_leaf

/-- The commands that are left. -/
private theorem beginning_buildSpec :
    Beginning (root.fromLast "buildSpec" (·.children.filterMap command?))
      (d.buildSpec.map BuildCommand.normalized) :=
  beginning_fixed cut (by simp [Description.fixedNodes])
    (by simp [Description.optionalNodes, filter_optionalBlock]) fun _ inner =>
      inner.beginning fun c _ => command?_node c

/-- The filters that are left. -/
private theorem beginning_filters :
    Beginning (root.fromLast "filteredResources" fun e => (e.named "filter").map filter)
      (d.filters.map Filter.normalized) := by
  have only : (d.fixedNodes ++ d.optionalNodes).filter (·.name == "filteredResources") =
      optionalBlock "filteredResources" (d.filters.map Filter.node) := by
    rw [Description.filter_nodes]
    simp [Description.fixedNodes]
  exact beginning_fromLast (cutAll_of_cut cut) (only ▸ optionalBlock_eq _ _) fun e inner =>
    inner.beginning_named_map (fun _ => rfl) filter_node

/-- The links that are left. -/
private theorem beginning_allLinks [Uri.DomainNames]
    (stable : ∀ l ∈ d.links.toList, l.location.writtenPath? = none →
      Uri.parse l.location.render = .ok l.location) :
    Beginning root.allLinks (d.links.toList.map Link.normalized) := by
  have only : (d.fixedNodes ++ d.optionalNodes).filter (·.name == "linkedResources") =
      optionalBlock "linkedResources" (d.links.toList.map Link.node) := by
    rw [Description.filter_nodes]
    simp [Description.fixedNodes]
  rw [allLinks]
  -- The container is left out, or cut off before it, or it is there once.
  rcases named_of_cutAll (cutAll_of_cut cut) (only ▸ optionalBlock_eq _ _) with
    absent | ⟨e, one, inner⟩
  · rw [absent]
    exact beginning_nil _
  · rw [one, List.flatMap_singleton]
    refine inner.beginning_named (fun _ => rfl) fun l mem => ?_
    rw [link_node, Link.reread_eq_normalized (stable l mem)]
    rfl

end Element

/-! ## Links -/

namespace Links

/-- If the links that are set are a beginning of some links, all of them but one at most are among
    these. -/
private theorem get?_of_beginning {ls : Links} {set : List Link} (h : Beginning set ls.toList) :
    ∃ path, ∀ l ∈ (empty.insertMany set).toList, l.path ≠ path → ls.get? l.path = some l := by
  rcases List.eq_nil_or_concat set with rfl | ⟨before, last, rfl⟩
  · exact ⟨"", fun l mem => by simp [insertMany, empty] at mem⟩
  · -- Setting links gives no other links than these, and all before the last are those of `ls`.
    refine ⟨last.path, fun l mem other => ?_⟩
    rcases mem_of_mem_insertMany mem with mem | mem
    · simp [empty] at mem
    · rw [List.concat_eq_append] at h mem
      rcases List.mem_append.1 mem with mem | mem
      · rw [Beginning, List.dropLast_concat] at h
        exact get?_of_mem (h.2.subset mem)
      · exact absurd (congrArg Link.path (List.mem_singleton.1 mem)) other

end Links

/-! ## Documents -/

namespace Reading

/-- A document that is cut off inside of its root is read as a description, with a problem.  Its
    lists are beginnings of those of the whole document, and its links, but for one at most, are
    links of the whole document. -/
theorem ofText_front [Uri.DomainNames] (d : Description) (s text : String) (normal : d.IsNormal)
    (plain : ∀ c ∈ s.toList, c ≠ '<')
    (stable : ∀ l ∈ d.links.toList, l.location.writtenPath? = none →
      Uri.parse l.location.render = .ok l.location)
    (front : text.toList <+: (d.document s).toList)
    (opens : openTag "projectDescription" <:+: text.toList)
    (unclosed : ¬ closeTag "projectDescription" <:+: text.toList) :
    (ofText text).problems ≠ [] ∧ ∃ d', (ofText text).description? = some d' ∧
      Beginning d'.projects d.projects ∧ Beginning d'.natures d.natures ∧
      Beginning d'.buildSpec d.buildSpec ∧ Beginning d'.filters d.filters ∧
      ∃ path, ∀ l ∈ d'.links.toList, l.path ≠ path → d.link? l.path = some l := by
  have name : d.node.name = "projectDescription" := rfl
  obtain ⟨root, isRoot, cut, innermost, outer, inside⟩ :=
    exists_root_of_cutOff d plain front (name ▸ opens) (name ▸ unclosed)
  refine ⟨?_, root.description, ?_, ?_, ?_, ?_, ?_, ?_⟩
  · -- An element is open at the end, which is a problem whether or not the markup breaks off.
    rw [problems_ofText, inside]
    simp [endProblems]
  · rw [description?_ofText, isRoot, descriptionOf?, Option.bind_some, cut.name_eq, if_pos name]
  · have projects := Element.beginning_projects cut
    rwa [map_eq_self_iff.2 normal.projects] at projects
  · have natures := Element.beginning_natures cut
    rwa [map_eq_self_iff.2 normal.natures] at natures
  · have buildSpec := Element.beginning_buildSpec cut
    rwa [map_eq_self_iff.2 fun c mem => c.normalized_eq_self_iff.2 (normal.commands c mem)]
      at buildSpec
  · have filters := Element.beginning_filters cut
    rwa [map_eq_self_iff.2 normal.filters] at filters
  · have links := Element.beginning_allLinks cut stable
    rw [map_eq_self_iff.2 fun l mem => l.normalized_eq_self_iff.2 (normal.links l mem)] at links
    exact Links.get?_of_beginning links

/-- A document on one line that is cut off inside of a reference. -/
theorem ofText_front_inReference :
    let d : Description :=
      { projects := ["b&c"]
        links := Links.empty.insert
          { path := "a", type? := some .file
            location := { scheme := "x", path := .rooted ["b"] } } }
    let text := "<?xml version=\"1.0\" encoding=\"UTF-8\"?><projectDescription>\t<name></name>" ++
      "\t<comment></comment>\t<projects>\t\t<project>b&am"
    (d.IsNormal ∧ text.toList <+: (d.document "").toList ∧
      openTag "projectDescription" <:+: text.toList ∧
      ¬ closeTag "projectDescription" <:+: text.toList) ∧
    (ofText text).problems ≠ [] ∧
      ∃ d', (ofText text).description? = some d' ∧ Beginning d'.projects d.projects := by
  intro d text
  have normal : d.IsNormal := d.isNormal_iff.2 (by decide)
  have stable : ∀ l ∈ d.links.toList, l.location.writtenPath? = none →
      Uri.parse l.location.render = .ok l.location := by
    intro l h _
    rw [List.mem_singleton.1 h]
    decide
  -- The text breaks off in the name of a reference, behind the start tag of the root.
  have front : text.toList <+: (d.document "").toList := by
    rw [toList_document]
    decide +kernel
  have opens : openTag "projectDescription" <:+: text.toList := by decide +kernel
  have unclosed : ¬ closeTag "projectDescription" <:+: text.toList := by decide +kernel
  obtain ⟨problems, d', read, projects, -⟩ :=
    ofText_front d "" text normal (by simp) stable front opens unclosed
  exact ⟨⟨normal, front, opens, unclosed⟩, problems, d', read, projects⟩

end Reading

end ProjectFile
