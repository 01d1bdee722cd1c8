import ProjectFile.Proofs.Document.Normal
import ProjectFile.Proofs.Markup.CutOff

/-!
# The tree of a written document that is cut off

A document that is cut off inside of its root still builds a tree, since what is open is closed at
the end.  That tree is the tree of the whole document up to the cut: in each element that was open
there, all children before the last one are whole, and the last one may be cut off itself
(`Node.Cut`).

The cut can be anywhere, also inside of a tag or of a reference.  Only the events that are left
matter: those of the whole document up to some place, and perhaps a part of a text (`CutOff`).

## Key results

- `Node.building_cutOff`: events of a part that are cut off leave an element that is cut off
- `exists_root_of_cutOff`: the root of a document that is cut off inside of it
-/

namespace ProjectFile

open ProjectFile.Markup

variable {separator : List Char}

/-! ## Parts between their tags -/

namespace Node

/-- What is written between the tags of a part. -/
def innerWritten (separator : List Char) (depth : Nat) : Node → List Char
  | .leaf _ text => escape text.toList
  | .block _ children => allWritten separator (depth + 1) children ++ gap separator depth

/-- The events between the tags of a part. -/
def innerEvents (separator : List Char) (depth : Nat) : Node → List Event
  | .leaf _ text => textEvents (escape text.toList)
  | .block _ children =>
    allEvents separator (depth + 1) children ++ textEvents (gap separator depth)

/-- A part is written as its start tag, what is inside, and its end tag. -/
private theorem written_eq (depth : Nat) (node : Node) :
    node.written separator depth =
      openTag node.name ++ (node.innerWritten separator depth ++ closeTag node.name) := by
  cases node <;> simp only [written, innerWritten, name, List.append_assoc]

/-- A part reads as its start tag, what is inside, and its end tag. -/
private theorem events_eq (depth : Nat) (node : Node) :
    node.events separator depth =
      .opened node.name :: (node.innerEvents separator depth ++ [.closed node.name]) := by
  cases node <;> simp only [events, innerEvents, name]

end Node

/-! ## Elements that are cut off -/

mutual

/-- What is left of the element of a part that is cut off behind its start tag. -/
inductive Node.Cut (separator : List Char) : Nat → Node → Element → Prop
  | leaf {depth : Nat} {name text : String} (held : String) :
    Cut separator depth (.leaf name text) { name, text := held }
  | block {depth : Nat} {name : String} {nodes : List Node} {es : List Element} (held : String)
      (inner : CutAll separator (depth + 1) nodes es) :
    Cut separator depth (.block name nodes) { name, text := held, children := es }

/-- What is left of the elements of parts that are cut off: whole elements, and behind them
    perhaps one that is cut off. -/
inductive Node.CutAll (separator : List Char) : Nat → List Node → List Element → Prop
  | none {depth : Nat} {nodes : List Node} : CutAll separator depth nodes []
  | last {depth : Nat} {node : Node} {rest : List Node} {e : Element}
      (cut : Cut separator depth node e) : CutAll separator depth (node :: rest) [e]
  | whole {depth : Nat} {node : Node} {rest : List Node} {es : List Element}
      (later : CutAll separator depth rest es) :
    CutAll separator depth (node :: rest) (node.element separator depth :: es)

end

/-- What is left of an element has its name. -/
theorem Node.Cut.name_eq {depth : Nat} {node : Node} {e : Element}
    (h : node.Cut separator depth e) : e.name = node.name := by
  cases h <;> rfl

/-- If all is left, nothing is cut off. -/
private theorem Node.cutAll_elements (depth : Nat) (nodes : List Node) :
    CutAll separator depth nodes (elements separator depth nodes) := by
  induction nodes with
  | nil => exact .none
  | cons node rest ih => exact .whole ih

/-- Nothing need be missing of a part that is cut off. -/
theorem Node.cut_element (depth : Nat) (node : Node) :
    node.Cut separator depth (node.element separator depth) := by
  cases node with
  | leaf name text => exact .leaf text
  | block name nodes =>
    rw [element]
    exact .block _ (cutAll_elements (depth + 1) nodes)

/-- The elements with a name that are left are those left of the parts with the name. -/
theorem Node.CutAll.named {depth : Nat} {nodes : List Node} {es : List Element}
    (h : CutAll separator depth nodes es) (name : String) :
    CutAll separator depth (nodes.filter (·.name == name)) (es.filter (·.name == name)) := by
  induction nodes generalizing es with
  | nil =>
    cases h
    exact .none
  | cons node rest ih =>
    cases h with
    | none => exact .none
    | last cut =>
      simp only [List.filter_cons, List.filter_nil, cut.name_eq]
      split
      · exact .last cut
      · exact .none
    -- An element that is whole is kept, or left out, with its part.
    | whole later =>
      simp only [List.filter_cons, Element.name_element]
      split
      · exact .whole (ih later)
      · exact ih later

/-! ## Closing what is open -/

namespace Tree

variable {t : Tree}

/-- Of some elements that are closed, the last one can be closed behind the others. -/
private theorem closeMany_succ (t : Tree) (n : Nat) :
    t.closeMany (n + 1) = (t.closeMany n).closeInnermost := by
  induction n generalizing t with
  | zero => rfl
  | succ n ih => rw [closeMany, ih, closeMany]

/-- As many elements are open as are not closed. -/
private theorem length_opened_closeMany (t : Tree) (n : Nat) :
    (t.closeMany n).opened.length = t.opened.length - n := by
  induction n generalizing t with
  | zero => rfl
  | succ n ih =>
    rw [closeMany, ih, length_opened_closeInnermost]
    omega

/-- Where the tree has open elements and no root, these are those of the document. -/
private theorem exists_openNames {es : List Event} (unrooted : (es.foldl take {}).root? = none)
    (opened : (es.foldl take {}).opened ≠ []) :
    ∃ name outer, openNames [] es = some (name :: outer) := by
  cases inside : openNames [] es with
  | none =>
    have rooted := (at_nil _).root_foldl_step upward_all inside
    rw [← (at_nil _).foldl_take, unrooted] at rooted
    simp at rooted
  | some names =>
    cases names with
    | nil => exact absurd (((at_foldl_take inside).opened_eq_nil_iff upward_all).2 rfl) opened
    | cons name outer => exact ⟨name, outer, rfl⟩

/-- Closing elements takes no root away. -/
private theorem root_of_closeMany {n : Nat} (h : (t.closeMany n).root? = none) :
    t.root? = none := by
  induction n generalizing t with
  | zero => exact h
  | succ n ih =>
    have closed := ih h
    unfold closeInnermost attach at closed
    split at closed
    · exact closed
    · split at closed
      · simp at closed
      · exact closed

end Tree

/-! ## Building elements that are cut off -/

namespace Tree

variable {o : OpenElement} {os : List OpenElement} {t : Tree}

/-- Texts change nothing but the text of the element around them. -/
private theorem Building.texts (h : t.Building (o :: os)) {es : List Event}
    (texts : ∀ e ∈ es, ∃ raw, e = .text raw) :
    ∃ text, (es.foldl take t).Building ({ o with text } :: os) := by
  induction es generalizing t o with
  | nil => exact ⟨o.text, h⟩
  | cons e es ih =>
    obtain ⟨raw, rfl⟩ := texts e (by simp)
    obtain ⟨text, building⟩ := ih (h.take_text raw) fun e he => texts e (by simp [he])
    exact ⟨text, building⟩

end Tree

/-- A text that stands alone has no event but a text. -/
private theorem isText_of_mem_textEvents (raw : List Char) :
    ∀ e ∈ textEvents raw, ∃ raw, e = .text raw := by
  intro e he
  unfold textEvents at he
  split at he
  · simp at he
  · exact ⟨raw, List.mem_singleton.1 he⟩

/-- Parts are cut off before the first of them, inside of it, or behind it. -/
private theorem Node.cutOff_cases {depth : Nat} {node : Node} {rest : List Node} {after : List Char}
    {es : List Event}
    (cut : CutOff es (Node.allEvents separator depth (node :: rest) ++ textEvents after)) :
    (∀ e ∈ es, ∃ raw, e = .text raw) ∨
      (∃ inside, es = textEvents (gap separator depth) ++ .opened node.name :: inside ∧
        CutOff inside (node.innerEvents separator depth)) ∨
      ∃ behind, es = textEvents (gap separator depth) ++ (node.events separator depth ++ behind) ∧
        CutOff behind (Node.allEvents separator depth rest ++ textEvents after) := by
  rw [Node.allEvents, Node.events_eq, List.append_assoc, List.append_assoc, List.cons_append]
    at cut
  -- What stands before the tag of a part is only text.
  rcases cut.split with before | ⟨es, rfl, behindStart⟩
  · exact .inl (before.texts (isText_of_mem_textEvents _))
  · rw [List.append_assoc, List.singleton_append] at behindStart
    rcases behindStart.split with inside | ⟨es, rfl, behind⟩
    · exact .inr (.inl ⟨es, rfl, inside⟩)
    · refine .inr (.inr ⟨es, ?_, behind⟩)
      rw [Node.events_eq, List.cons_append, List.append_assoc, List.singleton_append]

mutual

/-- The events between the tags of a part, cut off somewhere, leave an open element.  When what is
    open inside of it is closed, it is the element of the part, cut off. -/
theorem Node.building_cutOff {os : List OpenElement} {t : Tree} (h : t.Building os) (depth : Nat)
    (node : Node) {es : List Event} (cut : CutOff es (node.innerEvents separator depth)) :
    ∃ n o, (((Event.opened node.name :: es).foldl Tree.take t).closeMany n).Building (o :: os) ∧
      node.Cut separator depth o.close := by
  match node with
  | .leaf name text =>
    -- Between the tags of a leaf there is only text, of which any part may be left.
    have texts := cut.texts (isText_of_mem_textEvents _)
    obtain ⟨held, building⟩ := (h.opening name).texts texts
    exact ⟨0, _, building, .leaf held⟩
  | .block name nodes =>
    obtain ⟨n, held, left, building, inner⟩ :=
      Node.building_allCutOff (h.opening name) (depth + 1) nodes cut
    refine ⟨n, _, building, ?_⟩
    have block : (Node.block name nodes).Cut separator depth _ := .block held inner
    simpa [OpenElement.close] using block

/-- The events of parts, cut off somewhere, add elements to the element around them that are cut
    off. -/
theorem Node.building_allCutOff {o : OpenElement} {os : List OpenElement} {t : Tree}
    (h : t.Building (o :: os)) (depth : Nat) (nodes : List Node) {after : List Char}
    {es : List Event}
    (cut : CutOff es (Node.allEvents separator depth nodes ++ textEvents after)) :
    ∃ n text left, ((es.foldl Tree.take t).closeMany n).Building
        ({ o with text, latest := left.reverse ++ o.latest } :: os) ∧
      Node.CutAll separator depth nodes left := by
  match nodes with
  | [] =>
    obtain ⟨text, building⟩ := h.texts (cut.texts (isText_of_mem_textEvents after))
    exact ⟨0, text, [], building, .none⟩
  | node :: rest =>
    rcases Node.cutOff_cases cut with texts | ⟨es, rfl, inside⟩ | ⟨es, rfl, behind⟩
    · obtain ⟨text, building⟩ := h.texts texts
      exact ⟨0, text, [], building, .none⟩
    · -- The part that is cut off is closed as the last one of the element around it.
      have start := h.text (gap separator depth)
      obtain ⟨n, o', building, cutOff⟩ := Node.building_cutOff start depth node inside
      have closed := building.closeInnermost
      rw [← Tree.closeMany_succ, ← List.foldl_append] at closed
      exact ⟨n + 1, _, [o'.close], closed, .last cutOff⟩
    · have start := h.text (gap separator depth)
      have whole := Node.building_events separator start depth node
      obtain ⟨n, text, left, building, later⟩ :=
        Node.building_allCutOff whole depth rest behind
      refine ⟨n, text, node.element separator depth :: left, ?_, .whole later⟩
      rw [List.foldl_append, List.foldl_append, List.reverse_cons, List.append_assoc]
      exact building

end

/-! ## The root -/

/-- A root that is cut off is closed at the end of the document, as the element that is cut off. -/
private theorem root_finish_of_cutOff {t : Tree} (h : t.Building []) (node : Node) {es : List Event}
    (cut : CutOff es (node.innerEvents separator 0)) (ending : Ending) :
    ∃ root, (((Event.opened node.name :: es).foldl Tree.take t).finish ending).root? = some root ∧
      node.Cut separator 0 root ∧
      ((Event.opened node.name :: es).foldl Tree.take t).root? = none ∧
      ((Event.opened node.name :: es).foldl Tree.take t).opened ≠ [] := by
  obtain ⟨n, o, building, cutOff⟩ := Node.building_cutOff h 0 node cut
  generalize (Event.opened node.name :: es).foldl Tree.take t = t' at building ⊢
  have unclosed := Tree.root_of_closeMany building.root
  -- After `n` elements are closed the root is the only open one, and closing it is the next step.
  have count : t'.opened.length = n + 1 := by
    have left := Tree.length_opened_closeMany t' n
    rw [building.opened, List.length_singleton] at left
    omega
  refine ⟨o.close, ?_, cutOff, unclosed, fun empty => by simp [empty] at count⟩
  rw [Tree.root_finish unclosed, count, Tree.closeMany_succ]
  exact building.root_closeInnermost

/-! ## Where a document is cut off -/

/-- The name of a named part is an element name. -/
private theorem Node.isElementName_name {node : Node} (named : node.isNamed = true) :
    isElementName node.name = true := by
  cases node with
  | leaf name text => rwa [isNamed] at named
  | block name nodes =>
    rw [isNamed, Bool.and_eq_true] at named
    exact named.1

/-- What is written behind the start tag of a part reads as what is inside of it, and as its end
    tag. -/
private theorem Node.reads_inner (plain : ∀ c ∈ separator, c ≠ '<') (opened : List (List Char))
    (depth : Nat) (node : Node) (named : node.isNamed = true) (rest : List Char) :
    Reads (node.name.toList :: opened)
      (node.innerWritten separator depth ++ (closeTag node.name ++ rest))
      (node.innerEvents separator depth ++ [.closed node.name]) opened rest := by
  have all := Node.reads plain opened depth node named rest
  rw [written_eq, events_eq, List.append_assoc, List.append_assoc] at all
  exact (reads_openTag (isElementName_name named) opened _).drop all

/-- If a part is cut off behind its start tag and its end tag is read, the end tag is there. -/
private theorem Node.closeTag_infix (plain : ∀ c ∈ separator, c ≠ '<')
    {opened opened₁ : List (List Char)}
    {depth : Nat} {node : Node} (named : node.isNamed = true) {front tail rest s₁ : List Char}
    (split : front ++ tail =
      node.innerWritten separator depth ++ (closeTag node.name ++ rest))
    (reads : Reads (node.name.toList :: opened) front
      (node.innerEvents separator depth ++ [.closed node.name]) opened₁ s₁) :
    closeTag node.name <:+: front := by
  have endsInTag : ¬ EndsInText (node.innerEvents separator depth ++ [.closed node.name]) := by
    rintro ⟨es, raw, eq⟩
    have last := congrArg List.getLast? eq
    simp at last
  -- The whole text reads on behind the cut, and what is left behind the end tag is the same.
  have longer := reads.extend tail fun _ => endsInTag
  rw [split] at longer
  have left := longer.rest_eq (Node.reads_inner plain opened depth node named rest)
  rw [← left, ← List.append_assoc, ← List.append_assoc, List.append_cancel_right_eq] at split
  exact ⟨_, _, split.symm⟩

/-- The declaration, with the separator behind it, opens no other markup. -/
private theorem exists_declaration_eq (separator : List Char) (plain : ∀ c ∈ separator, c ≠ '<') :
    ∃ rest, Line.declaration.render.toList ++ separator = '<' :: '?' :: rest ∧
      ∀ c ∈ rest, c ≠ '<' := by
  have plainDeclaration : ∀ c ∈ "xml version=\"1.0\" encoding=\"UTF-8\"?>".toList, c ≠ '<' := by
    simp
  refine ⟨"xml version=\"1.0\" encoding=\"UTF-8\"?>".toList ++ separator,
    by simp [Line.render], fun c hc => ?_⟩
  rcases List.mem_append.1 hc with hc | hc
  · exact plainDeclaration c hc
  · exact plain c hc

/-- A start tag is not within a declaration. -/
private theorem exists_behind_declaration {before rest after behind : List Char} {c : Char}
    (letter : c ≠ '?') (tagless : ∀ c ∈ rest, c ≠ '<')
    (h : before ++ '<' :: c :: after = '<' :: '?' :: (rest ++ behind)) :
    ∃ more, before = '<' :: '?' :: (rest ++ more) := by
  -- The mark of the declaration is no start of a tag, so the tag is behind it.
  match before with
  | [] => simp [letter] at h
  | [_] => simp at h
  | _ :: _ :: before =>
    simp only [List.cons_append, List.cons.injEq] at h
    obtain ⟨rfl, rfl, h⟩ := h
    rcases List.append_eq_append_iff.1 h with ⟨back, rfl, tag⟩ | ⟨more, rfl, -⟩
    · cases back with
      | nil => exact ⟨[], by simp⟩
      | cons first back =>
        rw [List.cons_append, List.cons.injEq] at tag
        exact absurd tag.1.symm (tagless first (by simp))
    · exact ⟨more, rfl⟩

/-- A start tag is in the front part of a text only where it stands in the whole text. -/
private theorem exists_behind_tag {front rest name behind : List Char} {c : Char} (letter : c ≠ '?')
    (tagless : ∀ c ∈ rest, c ≠ '<')
    (cut : front <+: '<' :: '?' :: (rest ++ ('<' :: c :: name ++ behind)))
    (within : '<' :: c :: name <:+: front) :
    ∃ after, front = '<' :: '?' :: (rest ++ ('<' :: c :: name ++ after)) ∧ after <+: behind := by
  obtain ⟨tail, split⟩ := cut
  obtain ⟨before, later, eq⟩ := within
  have tag : before ++ '<' :: c :: (name ++ later ++ tail) =
      '<' :: '?' :: (rest ++ ('<' :: c :: name ++ behind)) := by
    rw [← split, ← eq]
    simp
  obtain ⟨more, rfl⟩ := exists_behind_declaration letter tagless tag
  -- With the tag in it, the front part is long enough for all that stands up to the tag.
  have upToTag : '<' :: '?' :: (rest ++ '<' :: c :: name) <+: front ++ tail :=
    ⟨behind, by simp [split]⟩
  obtain ⟨after, here⟩ : '<' :: '?' :: (rest ++ '<' :: c :: name) <+: front := by
    refine List.prefix_of_prefix_length_le upToTag (List.prefix_append _ _) ?_
    rw [← eq]
    simp only [List.length_append, List.length_cons]
    omega
  refine ⟨after, by simp [← here], tail, ?_⟩
  rw [← here] at split
  simpa using split

/-- The start tag of the root is in a document that is cut off only where it stands in the whole
    document: behind the declaration. -/
private theorem exists_behind_rootTag (d : Description) {s : String}
    (plain : ∀ c ∈ s.toList, c ≠ '<') {front : List Char} (cut : front <+: (d.document s).toList)
    (opens : openTag d.node.name <:+: front) :
    ∃ after,
      front = Line.declaration.render.toList ++ s.toList ++ (openTag d.node.name ++ after) ∧
      after <+: d.node.innerWritten s.toList 0 ++ (closeTag d.node.name ++ s.toList) := by
  obtain ⟨rest, declaration, tagless⟩ := exists_declaration_eq s.toList plain
  have tag : openTag d.node.name = '<' :: 'p' :: "rojectDescription>".toList := by
    simp [openTag, Description.node]
  rw [toList_document, Node.written_eq, declaration, tag] at cut
  rw [declaration]
  rw [tag] at opens ⊢
  exact exists_behind_tag (by decide) tagless (by simpa using cut) opens

/-- The events of a document that is cut off inside of its root: those before the root, the start
    tag of the root, and those inside of it up to the cut. -/
private theorem exists_events_of_cutOff (d : Description) {s : String}
    (plain : ∀ c ∈ s.toList, c ≠ '<') {front : List Char} (cut : front <+: (d.document s).toList)
    (opens : openTag d.node.name <:+: front) (unclosed : ¬ closeTag d.node.name <:+: front) :
    ∃ es, (scan front).events =
        .aside :: textEvents s.toList ++ .opened d.node.name :: es ∧
      CutOff es (d.node.innerEvents s.toList 0) := by
  obtain ⟨after, here, tail, split⟩ := exists_behind_rootTag d plain cut opens
  have named : isElementName d.node.name = true := Node.isElementName_name d.isNamed_node
  have read := reads_stop front
  have unmarked : dropMark front = front := by
    apply dropMark_of_head?
    rw [here]
    simp [Line.render]
  -- Up to the start tag of the root, the document is read like the whole one, and what is read
  -- behind it can be set against the inner events of the root.
  have before : Reads [] front (.aside :: textEvents s.toList ++ [.opened d.node.name])
      [d.node.name.toList] after := by
    rw [here, List.append_assoc]
    exact (piece_declaration.reads (by simp [Token.isText]) rfl).trans
      ((reads_text plain [] (startsMarkup_cons _)).trans (reads_openTag named [] after))
  rw [unmarked] at read
  obtain ⟨es, events, inside⟩ := before.exists_more read (stops_stopFrom _ _)
  refine ⟨es, by simp [events], ?_⟩
  have whole := Node.reads_inner plain [] 0 d.node d.isNamed_node s.toList
  have ending := reads_text plain [] startsMarkup_nil
  rw [List.append_nil] at ending
  rw [← split] at whole
  have within := inside.cutOff (whole.trans ending) (stops_nil _)
  rw [List.append_assoc, List.singleton_append] at within
  rcases within.split with inner | ⟨behind, rfl, -⟩
  · exact inner
  · -- If the end tag was among the events, it would be in the document.
    rw [List.append_cons] at inside
    obtain ⟨opened, rest, closed, -⟩ := inside.split
    have endTag := Node.closeTag_infix plain d.isNamed_node split closed
    refine absurd (endTag.trans ?_) unclosed
    rw [here]
    exact ⟨_, [], by rw [List.append_nil, List.append_assoc]⟩

/-- A document that is cut off inside of its root has a root that is cut off, and elements are open
    where it ends. -/
theorem exists_root_of_cutOff (d : Description) {s : String} (plain : ∀ c ∈ s.toList, c ≠ '<')
    {front : List Char} (cut : front <+: (d.document s).toList)
    (opens : openTag d.node.name <:+: front) (unclosed : ¬ closeTag d.node.name <:+: front) :
    ∃ root, (Tree.whole (scan front)).root? = some root ∧ d.node.Cut s.toList 0 root ∧
      ∃ name outer, openNames [] (scan front).events = some (name :: outer) := by
  obtain ⟨es, events, within⟩ := exists_events_of_cutOff d plain cut opens unclosed
  have start : Tree.Building [] {} := ⟨rfl, rfl⟩
  obtain ⟨root, isRoot, cutOff, unrooted, opened⟩ :=
    root_finish_of_cutOff start d.node within (scan front).ending
  -- What stands before the root leaves the tree as it is.
  have before : (Event.aside :: textEvents s.toList).foldl Tree.take {} = {} := by
    rw [List.foldl_cons]
    exact foldl_take_textEvents s.toList
  have run : (scan front).events.foldl Tree.take {} =
      (.opened d.node.name :: es).foldl Tree.take {} := by
    rw [events, List.foldl_append, before]
  rw [← run] at isRoot unrooted opened
  exact ⟨root, isRoot, cutOff, Tree.exists_openNames unrooted opened⟩

end ProjectFile
