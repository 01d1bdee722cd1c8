import ProjectFile.Proofs.Markup.Content
import ProjectFile.Proofs.Reading.Runs

/-!
# The children of a root

An element gives the same child of the tree wherever it stands: the one that it is the root of
when it is read as a document of its own.  So the root of a document has, one after the other, the
children that the elements in its content are read as, whatever stands between them.

## Key results

- `Tree.exists_frame`: what is read inside of an element adds to it, whatever it holds
- `Child.root_whole`, `Tree.Building.foldl_child`: a child on its own and inside of an element
- `RootText.root_whole`: the root of a document and its children
-/

namespace ProjectFile

open ProjectFile.Markup

variable {opened opened' : List (List Char)} {s rest : List Char} {es : List Event}
  {o : OpenElement} {os inner : List OpenElement} {t : Tree}

/-! ## Inside of an element -/

namespace Tree

/-- Open elements of which one has got more text and more children, where `inner` are open inside
    of it. -/
def filled (inner : List OpenElement) (o : OpenElement) (text : String) (latest : List Element)
    (os : List OpenElement) : List OpenElement :=
  inner ++ { o with text := o.text ++ text, latest := latest ++ o.latest } :: os

/-- An element that got nothing is as it was. -/
private theorem filled_nil (inner : List OpenElement) (o : OpenElement) (os : List OpenElement) :
    filled inner o "" [] os = inner ++ o :: os := by
  simp [filled]

/-- An element can be filled step by step. -/
private theorem filled_filled (inner : List OpenElement) (o : OpenElement) (text text' : String)
    (latest latest' : List Element) (os : List OpenElement) :
    filled inner { o with text := o.text ++ text, latest := latest ++ o.latest } text' latest' os =
      filled inner o (text ++ text') (latest' ++ latest) os := by
  simp [filled, String.append_assoc]

/-- An event inside of an element adds to it, or to what is open inside of it, whatever the element
    holds and whatever is open around it. -/
private theorem exists_frame_step {e : Event} (inside : ∀ name, e = .closed name → inner ≠ []) :
    ∃ inner' text latest, inner'.length = depthAfter inner.length e ∧
      ∀ (t : Tree) (o : OpenElement) (os : List OpenElement), t.Building (inner ++ o :: os) →
        (t.take e).Building (filled inner' o text latest os) := by
  -- The event goes to what is innermost: the element itself, or the first one open inside of it.
  cases e with
  | opened name =>
    refine ⟨{ name } :: inner, "", [], rfl, fun t o os h => ?_⟩
    rw [filled_nil]
    exact h.opening name
  | aside =>
    refine ⟨inner, "", [], rfl, fun t o os h => ?_⟩
    rw [filled_nil]
    exact h.take_aside
  | empty name =>
    cases inner with
    | nil =>
      exact ⟨[], "", [{ name }], rfl, fun t o os h => by simpa [filled] using h.take_empty name⟩
    | cons p inner =>
      refine ⟨{ p with latest := { name } :: p.latest } :: inner, "", [], rfl, fun t o os h => ?_⟩
      rw [filled_nil]
      exact h.take_empty name
  | closed name =>
    cases inner with
    | nil => exact absurd rfl (inside name rfl)
    | cons p inner =>
      cases inner with
      | nil =>
        exact ⟨[], "", [p.close], rfl, fun t o os h => by simpa [filled] using h.closing name⟩
      | cons q inner =>
        refine ⟨{ q with latest := p.close :: q.latest } :: inner, "", [], rfl, fun t o os h => ?_⟩
        rw [filled_nil]
        exact h.closing name
  | text raw =>
    cases inner with
    | nil =>
      exact ⟨[], heldText raw, [], rfl, fun t o os h => by simpa [filled] using h.take_text raw⟩
    | cons p inner =>
      refine ⟨{ p with text := p.text ++ heldText raw } :: inner, "", [], rfl, fun t o os h => ?_⟩
      rw [filled_nil]
      exact h.take_text raw
  | data content =>
    cases inner with
    | nil =>
      exact ⟨[], String.ofList content, [], rfl, fun t o os h => by
        simpa [filled] using h.take_data content⟩
    | cons p inner =>
      refine ⟨{ p with text := p.text ++ String.ofList content } :: inner, "", [], rfl,
        fun t o os h => ?_⟩
      rw [filled_nil]
      exact h.take_data content

/-- What is read inside of an element adds text and children to it, whatever the element holds and
    whatever is open around it. -/
theorem exists_frame (h : Reads opened s es opened' rest) (length : inner.length = opened.length) :
    ∃ inner' text latest, inner'.length = opened'.length ∧
      ∀ (t : Tree) (o : OpenElement) (os : List OpenElement), t.Building (inner ++ o :: os) →
        (es.foldl take t).Building (filled inner' o text latest os) := by
  -- The induction follows the events; what is open inside of the element changes with each of
  -- them.
  induction h generalizing inner with
  | done =>
    refine ⟨inner, "", [], length, fun t o os h => ?_⟩
    rw [filled_nil]
    exact h
  | event step _ ih =>
    obtain ⟨k, -, event⟩ := exists_token_of_event step
    -- An end tag inside of the element needs a start tag there, so it does not close the element
    -- itself.
    obtain ⟨depth, nonempty⟩ := length_of_eventOfToken event
    obtain ⟨inner₁, text, latest, length₁, first⟩ := exists_frame_step fun name closed => by
      rw [← List.length_pos_iff, length, List.length_pos_iff]
      exact nonempty name closed
    rw [length, ← depth] at length₁
    obtain ⟨inner', text', latest', length', later⟩ := ih length₁
    refine ⟨inner', text ++ text', latest' ++ latest, length', fun t o os h => ?_⟩
    rw [← filled_filled]
    exact later _ _ _ (first t o os h)

end Tree

/-! ## A child -/

namespace Markup.Child

/-- A child is the same element when it is read as a document of its own and when it is read inside
    of another element. -/
private theorem exists_element (c : Child) :
    ∃ e : Element, e.name = c.name ∧
      (∀ t : Tree, t.Building [] → (c.events.foldl Tree.take t).root? = some e) ∧
      ∀ (t : Tree) (o : OpenElement) (os : List OpenElement), t.Building (o :: os) →
        (c.events.foldl Tree.take t).Building ({ o with latest := e :: o.latest } :: os) := by
  obtain ⟨name, text, events, isElement⟩ := c
  cases isElement with
  | empty =>
    refine ⟨{ name }, rfl, fun t h => ?_, fun t o os h => h.take_empty name⟩
    simp [Tree.take, h.root, Tree.attach, h.opened]
  | pair _ inside =>
    -- Whatever is around the start tag, the element gets the same text and the same children.
    have none : ([] : List OpenElement).length = ([] : List (List Char)).length := rfl
    obtain ⟨inner, text, latest, length, run⟩ := Tree.exists_frame inside none
    obtain rfl : inner = [] := List.length_eq_zero_iff.1 length
    have filled : ∀ (t : Tree) (os : List OpenElement), t.Building os → _ :=
      fun t os h => run _ _ _ (h.opening name)
    refine ⟨OpenElement.close { name, text, latest }, rfl, fun t h => ?_, fun t o os h => ?_⟩
    · rw [List.foldl_cons, List.foldl_append]
      simpa [Tree.filled] using (filled t [] h).root_closing name
    · rw [List.foldl_cons, List.foldl_append]
      simpa [Tree.filled] using (filled t (o :: os) h).closing name

/-- The element that a child is read as: the root of a document with nothing else in it. -/
def element (c : Child) : Element :=
  (Tree.whole (scan c.text)).root?.getD { name := c.name }

/-- A child that is read as a document of its own is read event by event. -/
private theorem whole_text (c : Child) (h : (c.events.foldl Tree.take {}).root?.isSome = true) :
    Tree.whole (scan c.text) = c.events.foldl Tree.take {} := by
  have markup := c.isElement.startsMarkup_append []
  rw [List.append_nil] at markup
  have events := events_scan c.text
  rw [dropMark_of_startsMarkup markup, eventsFrom_of_reads (c.isElement.reads []) (stops_nil _)]
    at events
  rw [Tree.whole, events, Tree.finish_of_root h]

/-- The element of a child is the root that its events give. -/
private theorem element_eq {c : Child} {e : Element}
    (h : (c.events.foldl Tree.take {}).root? = some e) : c.element = e := by
  rw [element, c.whole_text (by simp [h]), h, Option.getD_some]

/-- A child is read as an element with its name. -/
theorem name_element (c : Child) : c.element.name = c.name := by
  obtain ⟨e, name, alone, -⟩ := c.exists_element
  rw [element_eq (alone {} Tree.building_nil), name]

end Markup.Child

namespace Tree

/-- A child is added to the element around it. -/
theorem Building.foldl_child (h : t.Building (o :: os)) (c : Child) :
    (c.events.foldl take t).Building ({ o with latest := c.element :: o.latest } :: os) := by
  obtain ⟨e, -, alone, inside⟩ := c.exists_element
  rw [Child.element_eq (alone {} Tree.building_nil)]
  exact inside t o os h

/-! ## The content of an element -/

/-- Before the root, what is no tag changes nothing. -/
private theorem foldl_noTags_of_nil (h : t.Building []) (noTags : ∀ e ∈ es, e.isTag = false) :
    es.foldl take t = t := by
  induction es with
  | nil => rfl
  | cons e es ih =>
    have same : t.take e = t := by
      have noTag := noTags e (by simp)
      cases e <;> simp_all [Event.isTag, take, h.root, addText, append, h.opened]
    rw [List.foldl_cons, same]
    exact ih fun e he => noTags e (by simp [he])

/-- Inside of an element, what is no tag changes only its text. -/
private theorem Building.exists_foldl_noTags (h : t.Building (o :: os))
    (noTags : ∀ e ∈ es, e.isTag = false) :
    ∃ text, (es.foldl take t).Building ({ o with text } :: os) := by
  -- Texts and CDATA sections go on with the text; comments and instructions leave it.
  induction es generalizing t o with
  | nil => exact ⟨o.text, h⟩
  | cons e es ih =>
    have later : ∀ e ∈ es, e.isTag = false := fun e he => noTags e (by simp [he])
    cases e with
    | text raw =>
      obtain ⟨text, more⟩ := ih (h.take_text raw) later
      exact ⟨text, more⟩
    | data content =>
      obtain ⟨text, more⟩ := ih (h.take_data content) later
      exact ⟨text, more⟩
    | aside => exact ih h.take_aside later
    | _ => simp [Event.isTag] at noTags

/-- The children of some items are added to the element around them, in order. -/
private theorem Building.exists_foldl_items (h : t.Building (o :: os)) (items : List Item) :
    ∃ text, ((items.flatMap Item.events).foldl take t).Building
      ({ o with
          text
          latest := (items.map (·.child.element)).reverse ++ o.latest } :: os) := by
  induction items generalizing t o with
  | nil => exact ⟨o.text, h⟩
  | cons i items ih =>
    obtain ⟨text, gap⟩ := h.exists_foldl_noTags i.gap.noTags
    -- The latest child stands first, so each one is put before those that were added already.
    obtain ⟨text', later⟩ := ih (gap.foldl_child i.child)
    refine ⟨text', ?_⟩
    rw [List.flatMap_cons, List.foldl_append, Item.events, List.foldl_append]
    simpa using later

/-- The content of an element adds its children to the element, one after the other. -/
private theorem Building.exists_foldl_content (h : t.Building (o :: os)) (c : Content) :
    ∃ text, (c.events.foldl take t).Building
      ({ o with
          text
          latest := (c.children.map Child.element).reverse ++ o.latest } :: os) := by
  obtain ⟨text, items⟩ := h.exists_foldl_items c.items
  obtain ⟨text', last⟩ := items.exists_foldl_noTags c.last.noTags
  refine ⟨text', ?_⟩
  rw [Content.events, List.foldl_append]
  simpa [Content.children, Function.comp_def] using last

end Tree

/-! ## The root -/

/-- An element with some content, read as a document of its own, is a root with the children that
    the elements in the content are read as. -/
private theorem Markup.Holds.exists_root {name : String} {c : Content} (h : Holds name c s es)
    (start : t.Building []) :
    ∃ root, (es.foldl Tree.take t).root? = some root ∧ root.name = name ∧
      root.children = c.children.map Child.element := by
  cases h with
  | empty =>
    refine ⟨{ name }, ?_, rfl, rfl⟩
    simp [Tree.take, start.root, Tree.attach, start.opened]
  | pair =>
    obtain ⟨text, inside⟩ := (start.opening name).exists_foldl_content c
    simp only [List.foldl_cons, List.foldl_append, List.foldl_nil]
    exact ⟨_, inside.root_closing name, rfl, by simp [OpenElement.close]⟩

/-- The root of a document has the children that the elements in its content are read as. -/
theorem Markup.RootText.root_whole {name : String} (r : RootText name) {content : String}
    (isText : dropMark content.toList = r.text) :
    ∃ root, (Tree.whole (scan content.toList)).root? = some root ∧ root.name = name ∧
      root.children = r.content.children.map Child.element := by
  have events := events_scan content.toList
  rw [isText, r.eventsFrom_text] at events
  obtain ⟨root, found, named, children⟩ := r.holds.exists_root Tree.building_nil
  have before : r.prolog.events.foldl Tree.take {} = {} :=
    Tree.foldl_noTags_of_nil Tree.building_nil r.prolog.noTags
  -- Once the root is closed, what follows changes nothing.
  have closed : (r.events.foldl Tree.take {}).root?.isSome = true := by simp [found]
  refine ⟨root, ?_, named, children⟩
  rw [Tree.whole, events, List.foldl_append, before, List.foldl_append,
    Tree.foldl_take_of_root closed, Tree.finish_of_root closed, found]

end ProjectFile
