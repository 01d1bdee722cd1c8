import Mathlib.Data.Set.Card
import ProjectFile.Document
import ProjectFile.Proofs.Description.Entries
import ProjectFile.Proofs.Reading.Skipping
import ProjectFile.Proofs.Text.ByteOrder

/-!
# Links as a map by path

A description keeps its links in a list that is sorted by path.  What it says about them is what a
plain map from paths to links says that is changed alongside: setting a link puts it at its path,
removing takes it from there, and a document that is read replaces all links by those that it
lists, set one after the other.  The sorted list is the only one for its map, so the order of the
changes does not show.

## Key results

- `Links.eq_of_get?`: links that agree at every path are equal
- `Description.link?_change`: one change of a description and of its map
- `Description.links_afterChanges`: what a description says after any changes
-/

namespace ProjectFile

open ProjectFile.Text

/-! ## The map -/

/-- Links by path, in no order. -/
abbrev LinkMap := String → Option Link

namespace LinkMap

/-- No links. -/
def empty : LinkMap := fun _ => none

/-- Puts a link at its path. -/
def set (m : LinkMap) (link : Link) : LinkMap :=
  Function.update m link.path (some link)

/-- Takes the link at a path away. -/
def remove (m : LinkMap) (path : String) : LinkMap :=
  Function.update m path none

/-- Puts links at their paths, one after the other. -/
def setMany (m : LinkMap) (links : List Link) : LinkMap :=
  links.foldl set m

end LinkMap

namespace Links

variable {ls : Links} {m : LinkMap}

/-- Setting a link sets it in the map. -/
private theorem get?_insert_eq (agree : ls.get? = m) (link : Link) :
    (ls.insert link).get? = m.set link := by
  funext path
  rw [get?_insert, agree, LinkMap.set, Function.update_apply]

/-- Removing a link removes it from the map. -/
private theorem get?_erase_eq (agree : ls.get? = m) (path : String) :
    (ls.erase path).get? = m.remove path := by
  funext p
  rw [get?_erase, agree, LinkMap.remove, Function.update_apply]

/-- Setting links one after the other sets them in the map. -/
private theorem get?_insertMany_eq (agree : ls.get? = m) (links : List Link) :
    (ls.insertMany links).get? = m.setMany links := by
  induction links generalizing ls m with
  | nil => exact agree
  | cons link rest ih => exact ih (get?_insert_eq agree link)

/-- No path occurs twice. -/
private theorem nodup_paths (ls : Links) : (ls.toList.map Link.path).Nodup := by
  rw [List.nodup_iff_pairwise_ne, List.pairwise_map]
  refine ls.sorted.imp ?_
  intro a b before same
  have less : a.path < b.path := before
  exact String.lt_irrefl _ (same ▸ less)

/-- Links that agree at every path are equal. -/
theorem eq_of_get? {a b : Links} (h : a.get? = b.get?) : a = b := by
  have members : ∀ l, l ∈ a.toList ↔ l ∈ b.toList := fun l => by rw [mem_iff, mem_iff, h]
  have perm : a.toList.Perm b.toList :=
    (List.perm_ext_iff_of_nodup (.of_map _ a.nodup_paths) (.of_map _ b.nodup_paths)).2 members
  -- Both lists are sorted, and no link comes both before and after another one.
  refine eq_of_toList (perm.eq_of_pairwise (fun x y _ _ before after => ?_) a.sorted b.sorted)
  exact absurd after (String.lt_asymm before)

/-- There are as many links as paths with a link. -/
private theorem encard_eq_size (ls : Links) : {path | ls.get? path ≠ none}.encard = ls.size := by
  have paths : {path | ls.get? path ≠ none} = ↑(ls.toList.map Link.path).toFinset := by
    ext path
    rw [Set.mem_ofPred_eq, List.coe_toFinset, Set.mem_ofPred_eq, List.mem_map]
    constructor
    · intro there
      obtain ⟨link, found⟩ := Option.ne_none_iff_exists'.1 there
      exact ⟨link, List.mem_of_find?_eq_some found, path_of_get? found⟩
    · rintro ⟨link, mem, rfl⟩
      rw [get?_of_mem mem]
      exact Option.some_ne_none link
  rw [paths, Set.encard_coe_eq_coe_finsetCard, List.toFinset_card_of_nodup ls.nodup_paths,
    List.length_map, size]

/-- There are links exactly if one is found at some path. -/
private theorem isEmpty_eq_false_iff (ls : Links) :
    ls.isEmpty = false ↔ ∃ path, ls.get? path ≠ none := by
  rw [isEmpty, List.isEmpty_eq_false_iff_exists_mem]
  constructor
  · rintro ⟨link, mem⟩
    exact ⟨link.path, by rw [get?_of_mem mem]; exact Option.some_ne_none link⟩
  · rintro ⟨path, there⟩
    obtain ⟨link, found⟩ := Option.ne_none_iff_exists'.1 there
    exact ⟨link, List.mem_of_find?_eq_some found⟩

end Links

/-! ## Changes -/

/-- A change of a description. -/
inductive Change where
  | setLink (link : Link)
  | removeLink (path : String)
  /-- Replacement by what a document is read as, if it is read as a description. -/
  | read (content : String)
  | setName (name? : Option String)
  | setComment (comment : String)
  | setLocation (location? : Option Uri)
  | setProjects (projects : List String)
  | setNatures (natures : List String)
  | setBuildSpec (buildSpec : List BuildCommand)
  | setFilters (filters : List Filter)

section

variable [Uri.DomainNames]

/-- The description after a change. -/
def Description.change (d : Description) : Change → Description
  | .setLink link => (d.exchangeLink link).2
  | .removeLink path => (d.takeLink path).2
  | .read content => (Reading.ofText content).description?.getD d
  | .setName name? => { d with name? }
  | .setComment comment => { d with comment }
  | .setLocation location? => { d with location? }
  | .setProjects projects => { d with projects }
  | .setNatures natures => { d with natures }
  | .setBuildSpec buildSpec => { d with buildSpec }
  | .setFilters filters => { d with filters }

/-- The description that changes make of an empty one. -/
def Description.afterChanges (changes : List Change) : Description :=
  changes.foldl change .empty

/-- The links that the document of a description lists, in its order. -/
def linksOf? (content : String) : Option (List Link) :=
  (Tree.whole (Markup.scan content.toList)).root?.bind fun root =>
    if root.name = "projectDescription" then some root.allLinks else none

/-- The map after a change. -/
def LinkMap.change (m : LinkMap) : Change → LinkMap
  | .setLink link => m.set link
  | .removeLink path => m.remove path
  | .read content =>
    match linksOf? content with
    | some links => LinkMap.empty.setMany links
    | none => m
  | _ => m

/-- The map that changes make of an empty one. -/
def LinkMap.afterChanges (changes : List Change) : LinkMap :=
  changes.foldl change .empty

end

/-- Whether two descriptions have the same links at all paths but one, and the same other
    fields. -/
def Description.AgreeBut (path : String) (d d' : Description) : Prop :=
  (∀ p, p ≠ path → d'.link? p = d.link? p) ∧ { d' with links := d.links } = d

namespace Description

section

variable [Uri.DomainNames]

/-- What is read has the links that the document lists. -/
private theorem link?_read (content : String) :
    (Reading.ofText content).description?.map link? =
      (linksOf? content).map LinkMap.empty.setMany := by
  rw [Reading.description?_ofText, descriptionOf?, linksOf?]
  cases (Tree.whole (Markup.scan content.toList)).root? with
  | none => rfl
  | some root =>
    rw [Option.bind_some, Option.bind_some]
    split
    · exact congrArg some (Links.get?_insertMany_eq rfl root.allLinks)
    · rfl

/-- A change keeps a description and its map together. -/
theorem link?_change {d : Description} {m : LinkMap} (agree : d.link? = m) (c : Change) :
    (d.change c).link? = m.change c := by
  cases c with
  | setLink link => exact Links.get?_insert_eq agree link
  | removeLink path => exact Links.get?_erase_eq agree path
  | read content =>
    have listed := link?_read content
    rw [change, LinkMap.change]
    cases read : (Reading.ofText content).description? with
    | none =>
      rw [read, Option.map_none, eq_comm, Option.map_eq_none_iff] at listed
      rw [listed]
      exact agree
    -- A document replaces all links by its own.
    | some new =>
      rw [read, Option.map_some, eq_comm, Option.map_eq_some_iff] at listed
      obtain ⟨links, eq, same⟩ := listed
      rw [eq]
      exact same.symm
  -- No other change touches the links.
  | _ => exact agree

/-- A run of changes keeps a description and its map together. -/
private theorem link?_foldl_change {d : Description} {m : LinkMap} (agree : d.link? = m)
    (changes : List Change) : (changes.foldl change d).link? = changes.foldl LinkMap.change m := by
  induction changes generalizing d m with
  | nil => exact agree
  | cons c rest ih => exact ih (link?_change agree c)

/-- After any changes of an empty description its links are those of the map. -/
private theorem link?_afterChanges (changes : List Change) :
    (afterChanges changes).link? = LinkMap.afterChanges changes :=
  link?_foldl_change rfl changes

end

/-- What is found once a link is set. -/
private theorem link?_setLink (d : Description) (link : Link) :
    (d.setLink link).link? = LinkMap.set d.link? link :=
  Links.get?_insert_eq rfl link

/-- What is found once a link is removed. -/
private theorem link?_removeLink (d : Description) (path : String) :
    (d.removeLink path).link? = LinkMap.remove d.link? path :=
  Links.get?_erase_eq rfl path

/-- Setting a link changes nothing but what is at its path. -/
private theorem agreeBut_setLink (d : Description) (link : Link) :
    d.AgreeBut link.path (d.setLink link) := by
  refine ⟨fun p other => ?_, rfl⟩
  rw [link?_setLink, LinkMap.set, Function.update_of_ne other]

/-- Removing a link changes nothing but what was at its path. -/
private theorem agreeBut_removeLink (d : Description) (path : String) :
    d.AgreeBut path (d.removeLink path) := by
  refine ⟨fun p other => ?_, rfl⟩
  rw [link?_removeLink, LinkMap.remove, Function.update_of_ne other]

/-- Descriptions with the same links by path, and the same other fields, are equal. -/
private theorem eq_of_link? {d d' : Description} (links : d'.link? = d.link?)
    (others : { d' with links := d.links } = d) : d' = d := by
  have same : d'.links = d.links := Links.eq_of_get? links
  rw [← same] at others
  exact others

/-- After any changes of an empty description its links are those of the map that is changed
    alongside, in the order of the bytes of their paths.  Setting or removing a link gives what the
    map had at its path, and changes nothing else.  Changes that end with the same map, and the same
    other fields, lead to the same document. -/
theorem links_afterChanges [Uri.DomainNames] (changes : List Change) :
    let d := afterChanges changes
    let m := LinkMap.afterChanges changes
    (∀ path, d.link? path = m path ∧ d.linkLocation? path = (m path).map Link.location) ∧
    (∀ path link, m path = some link → link.path = path) ∧
    d.links.toList.Pairwise (fun a b => bytes a.path < bytes b.path) ∧
    (∀ link, link ∈ d.links.toList ↔ m link.path = some link) ∧
    (d.hasLinks = true ↔ ∃ path, m path ≠ none) ∧
    {path | m path ≠ none}.encard = d.links.size ∧
    (∀ link, (d.exchangeLink link).1 = m link.path ∧
      (d.exchangeLink link).2.link? link.path = some link ∧
      d.AgreeBut link.path (d.exchangeLink link).2) ∧
    (∀ path, (d.takeLink path).1 = m path ∧ (d.takeLink path).2.link? path = none ∧
      d.AgreeBut path (d.takeLink path).2) ∧
    (∀ changes', LinkMap.afterChanges changes' = m →
      { afterChanges changes' with links := d.links } = d →
      ∀ separator, (afterChanges changes').document separator = d.document separator) := by
  intro d m
  have agree : d.link? = m := link?_afterChanges changes
  refine ⟨fun path => ?_, fun path link found => ?_, ?_, fun link => ?_, ?_, ?_, fun link => ?_,
    fun path => ?_, fun changes' maps others separator => ?_⟩
  · rw [linkLocation?, agree]
    exact ⟨rfl, rfl⟩
  · rw [← agree] at found
    exact Links.path_of_get? found
  · exact d.links.sorted.imp fun before => lt_iff_bytes_lt.1 before
  · rw [← agree]
    exact Links.mem_iff
  · rw [← agree, hasLinks, Bool.not_eq_true', Links.isEmpty_eq_false_iff]
    rfl
  · rw [← agree]
    exact d.links.encard_eq_size
  · refine ⟨congrFun agree _, ?_, agreeBut_setLink d link⟩
    show (d.setLink link).link? link.path = some link
    rw [link?_setLink, LinkMap.set, Function.update_self]
  · refine ⟨congrFun agree _, ?_, agreeBut_removeLink d path⟩
    show (d.removeLink path).link? path = none
    rw [link?_removeLink, LinkMap.remove, Function.update_self]
  · -- A description is decided by its map and its other fields.
    have same : (afterChanges changes').link? = d.link? := by
      rw [link?_afterChanges, maps, agree]
    rw [eq_of_link? same others]

/-- Two links that are set in either order, one of them with a removal in between. -/
theorem links_afterChanges_reordered :
    let u : Uri := { scheme := "x", path := .rooted ["b"] }
    let a : Link := { path := "a", location := u }
    let e : Link := { path := "é", type? := some .folder, location := u }
    let d := afterChanges [.setLink a, .setName "p", .setLink e]
    let d' := afterChanges [.setLink e, .removeLink "a", .setLink a, .setName "p"]
    d'.document "\r\n" = d.document "\r\n" ∧ (d.takeLink "é").1 = some e := by
  intro u a e d d'
  have differ : a.path ≠ e.path := by decide
  have maps : LinkMap.afterChanges [.setLink e, .removeLink "a", .setLink a, .setName "p"] =
      LinkMap.afterChanges [.setLink a, .setName "p", .setLink e] := by
    -- What is removed is set again, and two links at different paths can be set in either order.
    show ((LinkMap.empty.set e).remove a.path).set a = (LinkMap.empty.set a).set e
    simp only [LinkMap.set, LinkMap.remove, Function.update_idem]
    exact Function.update_comm differ.symm _ _ _
  obtain ⟨-, -, -, -, -, -, -, take, same⟩ :=
    links_afterChanges [.setLink a, .setName "p", .setLink e]
  exact ⟨same _ maps rfl "\r\n", (take "é").1⟩

end Description

end ProjectFile
