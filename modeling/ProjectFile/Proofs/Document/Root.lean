import ProjectFile.Proofs.Document.Layout
import ProjectFile.Proofs.Reading.Building

/-!
# The tree of a written document

The tree that a document is read as has an element for each part of the document
(`Node.element`).  The element of a leaf holds its text; the element of a block holds the elements
of its parts, and the texts between the lines.

## Key results

- `Node.exists_building`, `Node.building_allEvents`: the events of parts build their elements
- `root_whole_document`: the root of the document of a description
-/

namespace ProjectFile

open ProjectFile.Markup

/-! ## Elements of parts -/

/-- A text that is written with references is held as it was. -/
theorem heldText_escape (text : String) : heldText (escape text.toList) = text := by
  rw [heldText, resolve_escape]
  exact String.ofList_toList

/-- A text with what is written before each of some parts. -/
def Node.heldBetween (separator : List Char) (depth : Nat) (text : String) : List Node → String
  | [] => text
  | _ :: rest => Node.heldBetween separator depth (text ++ heldText (gap separator depth)) rest

mutual

/-- The element of a written part. -/
def Node.element (separator : List Char) (depth : Nat) : Node → Element
  | .leaf name text => { name, text }
  | .block name children =>
    { name
      text := Node.heldBetween separator (depth + 1) "" children ++ heldText (gap separator depth)
      children := Node.elements separator (depth + 1) children }

/-- The elements of written parts. -/
def Node.elements (separator : List Char) (depth : Nat) : List Node → List Element
  | [] => []
  | node :: rest => node.element separator depth :: Node.elements separator depth rest

end

/-- The elements of parts are the element of each part. -/
theorem Node.elements_eq_map (separator : List Char) (depth : Nat) (nodes : List Node) :
    Node.elements separator depth nodes = nodes.map (Node.element separator depth) := by
  induction nodes with
  | nil => rfl
  | cons node rest ih => rw [elements, ih, List.map_cons]

/-! ## Building elements -/

/-- A text is added to the innermost element. -/
theorem Tree.Building.text {o : OpenElement} {os : List OpenElement} {t : Tree}
    (h : t.Building (o :: os)) (raw : List Char) :
    ((textEvents raw).foldl take t).Building ({ o with text := o.text ++ heldText raw } :: os) := by
  unfold textEvents
  split
  · rename_i empty
    rw [empty, heldText_nil, String.append_empty]
    exact h
  · exact h.take_text raw

mutual

/-- The events of a part, but for the last one, open an element that is closed as the element of
    the part. -/
theorem Node.exists_building (separator : List Char) {os : List OpenElement} {t : Tree}
    (h : t.Building os) (depth : Nat) (node : Node) :
    ∃ (t' : Tree) (o : OpenElement) (name : String), t'.Building (o :: os) ∧
      o.close = node.element separator depth ∧
      (node.events separator depth).foldl Tree.take t = t'.take (.closed name) := by
  match node with
  | .leaf name text =>
    refine ⟨_, _, name, (h.opening name).text (escape text.toList), ?_, ?_⟩
    · simp [OpenElement.close, Node.element, heldText_escape]
    · rw [Node.events, List.foldl_cons, List.foldl_append, List.foldl_cons, List.foldl_nil]
  | .block name children =>
    -- What is inside of the block is built first, and the end of its last line comes behind.
    have inner := Node.building_allEvents separator (h.opening name) (depth + 1)
      children
    refine ⟨_, _, name, inner.text (gap separator depth), ?_, ?_⟩
    · simp [OpenElement.close, Node.element]
    · rw [Node.events, List.foldl_cons, List.foldl_append, List.foldl_append, List.foldl_cons,
        List.foldl_nil]

/-- The events of parts add their elements to the element around them, and to its text what is
    written between them. -/
theorem Node.building_allEvents (separator : List Char) {o : OpenElement}
    {os : List OpenElement} {t : Tree} (h : t.Building (o :: os)) (depth : Nat)
    (nodes : List Node) :
    ((Node.allEvents separator depth nodes).foldl Tree.take t).Building
      ({ o with
          text := Node.heldBetween separator depth o.text nodes
          latest := (Node.elements separator depth nodes).reverse ++ o.latest } :: os) := by
  match nodes with
  | [] => exact h
  -- The first part is closed, and the others come behind it.
  | node :: rest =>
    obtain ⟨t', o', name, building, closed, run⟩ :=
      Node.exists_building separator (h.text (gap separator depth)) depth node
    have after := building.closing name
    rw [closed, ← run] at after
    have others := Node.building_allEvents separator after depth rest
    rw [Node.allEvents, List.foldl_append, List.foldl_append, Node.heldBetween, Node.elements,
      List.reverse_cons, List.append_assoc]
    exact others

end

/-- The events of a part add its element to the element around it. -/
theorem Node.building_events (separator : List Char) {o : OpenElement} {os : List OpenElement}
    {t : Tree} (h : t.Building (o :: os)) (depth : Nat) (node : Node) :
    ((node.events separator depth).foldl Tree.take t).Building
      ({ o with latest := node.element separator depth :: o.latest } :: os) := by
  obtain ⟨t', o', name, building, closed, run⟩ := Node.exists_building separator h depth node
  rw [run, ← closed]
  exact building.closing name

/-- Outside of the root, texts leave the tree as it is. -/
theorem foldl_take_textEvents (raw : List Char) : (textEvents raw).foldl Tree.take {} = {} := by
  unfold textEvents
  split <;> rfl

/-- The events of the document of a description build the element of the description. -/
private theorem root_foldl_events (d : Description) (separator : List Char) :
    ((d.events separator).foldl Tree.take {}).root? = some (d.node.element separator 0) := by
  -- Only the root is looked at: what stands around it changes nothing.
  have start : Tree.Building [] {} := ⟨rfl, rfl⟩
  obtain ⟨t, o, name, building, closed, run⟩ := Node.exists_building separator start 0 d.node
  have root := building.root_closing name
  rw [closed] at root
  have before : (Event.aside :: textEvents separator).foldl Tree.take {} = {} := by
    rw [List.foldl_cons]
    exact foldl_take_textEvents separator
  have isSome : (t.take (.closed name)).root?.isSome = true := by
    rw [root]
    rfl
  rw [Description.events, ← List.cons_append, List.foldl_append, before, List.foldl_append, run,
    Tree.foldl_take_of_root isSome, root]

/-- The root of the document of a description is the element of the description. -/
theorem root_whole_document (d : Description) {s : String} (plain : ∀ c ∈ s.toList, c ≠ '<') :
    (Tree.whole (scan (d.document s).toList)).root? = some (d.node.element s.toList 0) := by
  have root := root_foldl_events d s.toList
  rw [scan_document d plain, Tree.whole, Tree.finish_of_root (by rw [root]; rfl), root]

/-- The document of a description closes its root. -/
theorem openNames_events (d : Description) (separator : List Char) :
    openNames [] (d.events separator) = none := by
  cases inside : openNames [] (d.events separator) with
  | none => rfl
  | some names =>
    -- A tree whose root is open has no root yet.
    have open_root := (Tree.at_foldl_take inside).root
    rw [root_foldl_events] at open_root
    simp at open_root

end ProjectFile
