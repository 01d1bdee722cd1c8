import ProjectFile.Proofs.Description.Sameness
import ProjectFile.Proofs.Document.Layout

/-!
# Documents of descriptions that say the same

Arguments are written in their order, and descriptions that say the same may have them in
different orders.  So the documents of such descriptions have the same lines, but not always in
the same order: the documents are equal exactly if the order of the arguments is the same in all
commands.

That the documents differ if the order does holds for every separator, even one that looks like
markup: in documents of the same outline each text ends where its end tag starts, so the texts can
be told apart one after the other.

## Key results

- `Node.written_inj`: what parts with one outline are written as tells them apart
- `Description.perm_lines_of_same`: descriptions that say the same have the same lines
- `Description.document_eq_iff_of_same`: when they have the same document
-/

namespace ProjectFile

open ProjectFile.Markup

/-! ## Parts with one outline -/

mutual

/-- A part without its texts. -/
def Node.outline : Node → Node
  | .leaf name _ => .leaf name ""
  | .block name children => .block name (Node.outlines children)

/-- Parts without their texts. -/
def Node.outlines : List Node → List Node
  | [] => []
  | node :: rest => node.outline :: Node.outlines rest

end

/-- Parts without their texts are each part without its texts. -/
private theorem Node.outlines_eq_map (nodes : List Node) :
    Node.outlines nodes = nodes.map outline := by
  induction nodes with
  | nil => rfl
  | cons node rest ih => rw [outlines, ih, List.map_cons]

/-- Different texts are written differently. -/
private theorem escape_inj {s t : List Char} (h : escape s = escape t) : s = t := by
  have resolved := congrArg resolve h
  rw [resolve_escape, resolve_escape] at resolved
  exact Except.ok.inj resolved

/-- Two texts without markup that are followed by a tag each end at the same place. -/
private theorem append_open_inj {text text' rest rest' : List Char} (plain : ∀ c ∈ text, c ≠ '<')
    (plain' : ∀ c ∈ text', c ≠ '<') (h : text ++ '<' :: rest = text' ++ '<' :: rest') :
    text = text' ∧ rest = rest' := by
  have upTo : ∀ text rest : List Char, (∀ c ∈ text, c ≠ '<') →
      (text ++ '<' :: rest).takeWhile inText = text := by
    intro text rest plain
    rw [List.takeWhile_append_of_pos fun c hc => by simpa [inText] using plain c hc]
    simp [inText]
  have same : text = text' := by
    rw [← upTo text rest plain, h, upTo text' rest' plain']
  subst same
  exact ⟨rfl, by simpa using h⟩

mutual

/-- What is written of two parts with one outline is different if the parts are, whatever
    follows. -/
theorem Node.written_inj {separator : List Char} (depth : Nat) (node node' : Node)
    {rest rest' : List Char} (alike : node.outline = node'.outline)
    (h : node.written separator depth ++ rest = node'.written separator depth ++ rest') :
    node = node' ∧ rest = rest' := by
  match node, node' with
  | .leaf name text, .leaf name' text' =>
    simp only [Node.outline, Node.leaf.injEq, and_true] at alike
    subst alike
    simp only [Node.written, List.append_assoc, List.append_cancel_left_eq] at h
    -- Behind the start tag each text goes on up to the `<` of its end tag.
    obtain ⟨texts, tags⟩ := append_open_inj (fun c hc => ne_open_of_mem_escape hc)
      (fun c hc => ne_open_of_mem_escape hc) h
    rw [String.toList_inj.1 (escape_inj texts)]
    exact ⟨rfl, by simpa using tags⟩
  | .block name children, .block name' children' =>
    simp only [Node.outline, Node.block.injEq] at alike
    obtain ⟨rfl, alike⟩ := alike
    simp only [Node.written, List.append_assoc, List.append_cancel_left_eq] at h
    obtain ⟨rfl, tags⟩ := Node.allWritten_inj (depth + 1) children children' alike h
    exact ⟨rfl, by simpa using tags⟩
  | .leaf _ _, .block _ _ => simp [Node.outline] at alike
  | .block _ _, .leaf _ _ => simp [Node.outline] at alike

/-- What is written of lists of parts with one outline is different if the lists are, whatever
    follows. -/
theorem Node.allWritten_inj {separator : List Char} (depth : Nat) (nodes nodes' : List Node)
    {rest rest' : List Char} (alike : Node.outlines nodes = Node.outlines nodes')
    (h : Node.allWritten separator depth nodes ++ rest =
      Node.allWritten separator depth nodes' ++ rest') : nodes = nodes' ∧ rest = rest' := by
  match nodes, nodes' with
  | [], [] => exact ⟨rfl, h⟩
  | node :: others, node' :: others' =>
    -- The first part ends where it ends in the other text, and the others follow.
    simp only [Node.outlines, List.cons.injEq] at alike
    simp only [Node.allWritten, List.append_assoc, List.append_cancel_left_eq] at h
    obtain ⟨rfl, later⟩ := Node.written_inj depth node node' alike.1 h
    obtain ⟨rfl, rest⟩ := Node.allWritten_inj depth others others' alike.2 later
    exact ⟨rfl, rest⟩
  | [], _ :: _ => simp [Node.outlines] at alike
  | _ :: _, [] => simp [Node.outlines] at alike

end

/-! ## Commands -/

/-- The outline of a command tells how many arguments it has, and nothing else. -/
private theorem BuildCommand.outline_node (c : BuildCommand) :
    c.node.outline = .block "buildCommand" [.leaf "name" "", .block "arguments"
      (List.replicate c.arguments.entries.length
        (.block "dictionary" [.leaf "key" "", .leaf "value" ""]))] := by
  have arguments : (c.arguments.entries.map argumentNode).map Node.outline =
      List.replicate c.arguments.entries.length
        (.block "dictionary" [.leaf "key" "", .leaf "value" ""]) := by
    rw [List.map_map, List.eq_replicate_iff]
    refine ⟨by simp, fun node h => ?_⟩
    obtain ⟨entry, -, rfl⟩ := List.mem_map.1 h
    rfl
  simp only [BuildCommand.node, Node.outline, Node.outlines, Node.outlines_eq_map, arguments]

/-- Arguments with equal parts have the same keys in the same order. -/
private theorem keys_eq_of_argumentNodes {entries entries' : List (String × Option String)}
    (h : entries.map argumentNode = entries'.map argumentNode) :
    entries.map Prod.fst = entries'.map Prod.fst := by
  induction entries generalizing entries' with
  | nil => rw [List.map_eq_nil_iff.1 h.symm]
  | cons entry rest ih =>
    obtain ⟨entry', rest', rfl, first, later⟩ := List.map_eq_cons_iff.1 h.symm
    simp only [argumentNode, Node.block.injEq, List.cons.injEq, Node.leaf.injEq, true_and] at first
    rw [List.map_cons, List.map_cons, ih later.symm, first.1]

/-- Commands that are the same have equal outlines, in whatever order their arguments are. -/
private theorem outlines_eq_of_forall₂ {cs cs' : List BuildCommand}
    (h : List.Forall₂ (fun c c' => c.name = c'.name ∧ c.arguments.same c'.arguments = true)
      cs cs') :
    (cs.map BuildCommand.node).map Node.outline =
      (cs'.map BuildCommand.node).map Node.outline := by
  induction h with
  | nil => rfl
  | cons here _ ih =>
    simp only [List.map_cons, BuildCommand.outline_node, Arguments.length_of_same here.2, ih]

/-- The order of the keys can be told from the parts of commands. -/
private theorem keys_eq_of_nodes {cs cs' : List BuildCommand}
    (h : cs.map BuildCommand.node = cs'.map BuildCommand.node) :
    cs.map (·.arguments.keys) = cs'.map (·.arguments.keys) := by
  induction cs generalizing cs' with
  | nil => rw [List.map_eq_nil_iff.1 h.symm]
  | cons c rest ih =>
    obtain ⟨c', rest', rfl, first, later⟩ := List.map_eq_cons_iff.1 h.symm
    simp only [BuildCommand.node, Node.block.injEq, List.cons.injEq, true_and, and_true] at first
    have keys : c.arguments.keys = c'.arguments.keys := keys_eq_of_argumentNodes first.2.symm
    rw [List.map_cons, List.map_cons, ih later.symm, keys]

/-! ## Lines -/

/-- The lines of parts are those of each part. -/
private theorem Node.allLines_eq_flatMap (depth : Nat) (nodes : List Node) :
    Node.allLines depth nodes = nodes.flatMap (Node.lines depth) := by
  induction nodes with
  | nil => rfl
  | cons node rest ih => rw [allLines, ih, List.flatMap_cons]

/-- A block has the same lines, in some order, if what is in it has. -/
private theorem Node.perm_lines_block (name : String) {depth : Nat} {children children' : List Node}
    (h : (Node.allLines (depth + 1) children).Perm (Node.allLines (depth + 1) children')) :
    ((Node.block name children).lines depth).Perm ((Node.block name children').lines depth) := by
  rw [Node.lines, Node.lines]
  exact (h.append_right _).cons _

/-- One part may be replaced by another one with the same lines in some order. -/
private theorem Node.perm_allLines_replace {depth : Nat} (before after : List Node)
    {node node' : Node} (h : (node.lines depth).Perm (node'.lines depth)) :
    (Node.allLines depth (before ++ node :: after)).Perm
      (Node.allLines depth (before ++ node' :: after)) := by
  simp only [allLines_eq_flatMap, List.flatMap_append, List.flatMap_cons]
  exact (h.append_right _).append_left _

/-- Commands that are the same have the same lines. -/
private theorem BuildCommand.perm_lines {c c' : BuildCommand} (depth : Nat)
    (name : c.name = c'.name) (arguments : c.arguments.same c'.arguments = true) :
    (c.node.lines depth).Perm (c'.node.lines depth) := by
  have entries : (Node.allLines (depth + 2) (c.arguments.entries.map argumentNode)).Perm
      (Node.allLines (depth + 2) (c'.arguments.entries.map argumentNode)) := by
    rw [Node.allLines_eq_flatMap, Node.allLines_eq_flatMap]
    exact ((Arguments.perm_of_same arguments).map argumentNode).flatMap_right _
  have block := Node.perm_lines_block "arguments" entries
  rw [BuildCommand.node, BuildCommand.node, name]
  exact Node.perm_lines_block _ (Node.perm_allLines_replace [_] [] block)

/-- Commands that are the same have the same lines in some order. -/
private theorem perm_allLines_of_forall₂ {cs cs' : List BuildCommand} (depth : Nat)
    (h : List.Forall₂ (fun c c' => c.name = c'.name ∧ c.arguments.same c'.arguments = true)
      cs cs') :
    (Node.allLines depth (cs.map BuildCommand.node)).Perm
      (Node.allLines depth (cs'.map BuildCommand.node)) := by
  induction h with
  | nil => exact .refl _
  | cons here _ ih => exact (BuildCommand.perm_lines depth here.1 here.2).append ih

/-! ## Descriptions -/

namespace Description

variable {a b : Description}

/-- Descriptions that say the same have the same lines, in some order. -/
theorem perm_lines_of_same (h : a.same b = true) : a.lines.Perm b.lines := by
  have commands := perm_allLines_of_forall₂ 2 (forall₂_of_same h)
  rw [eq_with_buildSpec_of_same h]
  -- Only the container of the commands differs; the parts before and behind it are the same.
  refine (Node.perm_lines_block "projectDescription" ?_).cons _
  exact Node.perm_allLines_replace [_, _, _] _ (Node.perm_lines_block "buildSpec" commands)

/-- Descriptions that say the same have one outline. -/
private theorem outline_eq_of_same (h : a.same b = true) : a.node.outline = b.node.outline := by
  have commands := outlines_eq_of_forall₂ (forall₂_of_same h)
  rw [eq_with_buildSpec_of_same h]
  simp only [node, Node.outline, Node.outlines_eq_map, List.map_append, List.map_cons, commands]

/-- If also their documents are equal, they have equal parts. -/
private theorem nodes_eq_of_document {s : String} (h : a.same b = true)
    (documents : a.document s = b.document s) : a.node = b.node := by
  have written := congrArg String.toList documents
  rw [toList_document, toList_document, List.append_cancel_left_eq] at written
  exact (Node.written_inj 0 a.node b.node (outline_eq_of_same h) written).1

/-- Descriptions that say the same have the same lines.  They have the same document, whatever the
    separator, exactly if the arguments of each command stand in the same order. -/
theorem document_eq_iff_of_same (a b : Description) (h : a.same b = true) (separator : String) :
    a.lines.Perm b.lines ∧
      (a.document separator = b.document separator ↔
        a.buildSpec.map (·.arguments.keys) = b.buildSpec.map (·.arguments.keys)) := by
  refine ⟨perm_lines_of_same h, fun documents => ?_, fun keys => ?_⟩
  · have nodes := nodes_eq_of_document h documents
    rw [eq_with_buildSpec_of_same h] at nodes
    simp only [node, Node.block.injEq, List.append_cancel_right_eq, List.cons.injEq, true_and,
      and_true] at nodes
    exact keys_eq_of_nodes nodes
  · rw [eq_of_same h keys]

/-- Two arguments of a command are swapped, and the documents differ. -/
theorem document_eq_iff_of_same_swapped :
    let a : Description :=
      { buildSpec := [⟨"b", .ofList [("k", some "1"), ("l", none)]⟩, ⟨"c", .empty⟩] }
    let b : Description :=
      { buildSpec := [⟨"b", .ofList [("l", none), ("k", some "1")]⟩, ⟨"c", .empty⟩] }
    a.same b = true ∧ ¬ a.document "\r\n" = b.document "\r\n" := by
  intro a b
  have same : a.same b = true := by decide
  exact ⟨same, fun h => absurd ((document_eq_iff_of_same a b same "\r\n").2.1 h) (by decide)⟩

/-- The order of arguments shows in the document, though not in what is said. -/
theorem document_ne_of_reordered :
    let a : Description := { buildSpec := [⟨"", .ofList [("a", some "1"), ("b", some "2")]⟩] }
    let b : Description := { buildSpec := [⟨"", .ofList [("b", some "2"), ("a", some "1")]⟩] }
    a.same b = true ∧ a.document "\n" ≠ b.document "\n" := by
  intro a b
  exact ⟨by decide, by decide +kernel⟩

end Description

end ProjectFile
