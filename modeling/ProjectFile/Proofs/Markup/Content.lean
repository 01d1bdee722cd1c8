import Mathlib.Data.List.Perm.Basic
import ProjectFile.Proofs.Markup.Nesting
import ProjectFile.Proofs.Markup.Parts

/-!
# The content of an element

The content of an element is a row of child elements, with texts, comments and instructions
between them: `Content`.  `RootText` is a document as what is before its root, the root with its
content, and what is behind it.

Every document whose root is closed can be split up in this way (`exists_rootText`), and its
events are those of its parts.

## Key results

- `Content.reads_append`: content is read item by item
- `RootText.openNames_text`, `RootText.unresolvedTexts_text`: the root is closed, and only its
  content has texts that count
- `Content.perm_unresolvedTexts`: those texts are the ones between the children and in them
- `exists_rootText`: a document whose root is closed has these parts
-/

namespace ProjectFile.Markup

variable {opened opened' : List (List Char)} {s rest : List Char} {es : List Event}

/-! ## Gaps, children and content -/

/-- Whether an event is that of a tag. -/
def Event.isTag : Event → Bool
  | .opened _ => true
  | .empty _ => true
  | .closed _ => true
  | _ => false

/-- The fault of an event that is a text whose references cannot be resolved. -/
def Event.fault? : Event → Option ReferenceFault
  | .text raw =>
    match resolve raw with
    | .ok _ => none
    | .error fault => some fault
  | _ => none

/-- A part of a document without tags: texts, comments and instructions. -/
structure Gap where
  text : List Char
  events : List Event
  reads : Reads [] text events [] []
  noTags : ∀ e ∈ events, e.isTag = false

namespace Gap

def empty : Gap where
  text := []
  events := []
  reads := .done _ _
  noTags := by simp

/-- A gap is read as its events in front of markup, so that no text in it can go on. -/
private theorem reads_append (g : Gap) (opened : List (List Char)) {other : List Char}
    (markup : StartsMarkup other) : Reads opened (g.text ++ other) g.events opened other :=
  (g.reads.under opened).followed markup

/-- The faults of the texts in a gap. -/
def faults (g : Gap) : List ReferenceFault :=
  g.events.filterMap Event.fault?

end Gap

/-- A part of a document that is one element with a local name. -/
structure Child where
  name : String
  text : List Char
  events : List Event
  isElement : ReadsElement name text events

/-- A child element, with what stands between it and the child before it. -/
structure Item where
  gap : Gap
  child : Child

namespace Item

def text (i : Item) : List Char :=
  i.gap.text ++ i.child.text

def events (i : Item) : List Event :=
  i.gap.events ++ i.child.events

/-- A child element is read behind its gap, whatever follows it. -/
private theorem reads_append (i : Item) (opened : List (List Char)) (other : List Char) :
    Reads opened (i.text ++ other) i.events opened other := by
  rw [text, List.append_assoc]
  exact (i.gap.reads_append opened (i.child.isElement.startsMarkup_append other)).trans
    (i.child.isElement.reads_append opened other)

end Item

/-- The content of an element: its children, and what stands behind the last one. -/
structure Content where
  items : List Item
  last : Gap

namespace Content

def empty : Content :=
  ⟨[], .empty⟩

def text (c : Content) : List Char :=
  c.items.flatMap Item.text ++ c.last.text

def events (c : Content) : List Event :=
  c.items.flatMap Item.events ++ c.last.events

def children (c : Content) : List Child :=
  c.items.map Item.child

def gaps (c : Content) : List Gap :=
  c.items.map Item.gap ++ [c.last]

end Content

/-- Child elements are read one after the other, whatever follows them. -/
private theorem reads_items (items : List Item) (opened : List (List Char)) (other : List Char) :
    Reads opened (items.flatMap Item.text ++ other) (items.flatMap Item.events) opened other := by
  induction items with
  | nil => exact .done _ _
  | cons i items ih =>
    rw [List.flatMap_cons, List.append_assoc, List.flatMap_cons]
    exact (i.reads_append opened _).trans ih

/-- Content is read item by item, and leaves open what is open there. -/
theorem Content.reads_append (c : Content) (opened : List (List Char)) {other : List Char}
    (markup : StartsMarkup other) : Reads opened (c.text ++ other) c.events opened other := by
  rw [text, List.append_assoc]
  exact (reads_items c.items opened _).trans (c.last.reads_append opened markup)

/-- Content is read on its own as its events. -/
private theorem Content.reads (c : Content) : Reads [] c.text c.events [] [] := by
  have reads := c.reads_append [] startsMarkup_nil
  rwa [List.append_nil] at reads

/-! ## Documents -/

/-- A part of a document is an element with a local name and with some content. -/
inductive Holds (name : String) : Content → List Char → List Event → Prop
  | empty {tag full : List Char} (isTag : Piece tag (.emptyTag full))
      (named : localName full = name) : Holds name .empty tag [.empty name]
  | pair {start stop full : List Char} (content : Content) (opens : Piece start (.openTag full))
      (closes : Piece stop (.closeTag full)) (named : localName full = name) :
      Holds name content (start ++ (content.text ++ stop))
        (.opened name :: (content.events ++ [.closed name]))

/-- An element that holds some content is an element. -/
private theorem Holds.readsElement {name : String} {c : Content} (h : Holds name c s es) :
    ReadsElement name s es := by
  cases h with
  | empty isTag named => exact .empty isTag named
  | pair _ opens closes named => exact .pair opens c.reads closes named

/-- A document whose root has a local name. -/
structure RootText (name : String) where
  prolog : Gap
  content : Content
  root : List Char
  events : List Event
  holds : Holds name content root events
  tail : List Char

namespace RootText

variable {name : String}

def text (r : RootText name) : List Char :=
  r.prolog.text ++ (r.root ++ r.tail)

/-- A document is read up to the end of its root. -/
private theorem reads (r : RootText name) :
    Reads [] r.text (r.prolog.events ++ r.events) [] r.tail :=
  (r.prolog.reads_append [] (r.holds.readsElement.startsMarkup_append _)).trans
    (r.holds.readsElement.reads_append [] r.tail)

/-- The events of a document are those of what is before its root, those of the root, and those of
    what is behind it. -/
theorem eventsFrom_text (r : RootText name) :
    eventsFrom [] r.text = r.prolog.events ++ (r.events ++ eventsFrom [] r.tail) := by
  obtain ⟨opened, rest, behind, stops⟩ := exists_reads_eventsFrom [] r.tail
  rw [eventsFrom_of_reads (r.reads.trans behind) stops, List.append_assoc]

end RootText

/-! ## What is open -/

/-- In an element, an event changes the open names by what it opens and closes itself. -/
private theorem nest_append_of_eventOfToken {t : Token} {e : Event} {around : List String}
    (h : eventOfToken opened t = .ok (e, opened')) (nonempty : around ≠ []) :
    e.nest (opened.map localName ++ around) = some (opened'.map localName ++ around) := by
  obtain ⟨innermost, outer, rfl⟩ := List.exists_cons_of_ne_nil nonempty
  -- An end tag closes one of the names of `opened`, so those around it stay.
  cases eventOfToken_eq_ok_iff.1 h with
  | closeTag => cases opened' <;> rfl
  | emptyTag => cases opened <;> rfl
  | _ => simp [Event.nest]

/-- What is read on its own inside of an element does not close it. -/
theorem openNames_of_reads_inside {around : List String} (h : Reads opened s es opened' rest)
    (nonempty : around ≠ []) :
    openNames (opened.map localName ++ around) es = some (opened'.map localName ++ around) := by
  induction h with
  | done => rfl
  | event step _ ih =>
    obtain ⟨t, -, event⟩ := exists_token_of_event step
    rw [openNames_cons, nest_append_of_eventOfToken event nonempty, Option.bind_some, ih]

/-- What opens and closes its own elements leaves the element around it open. -/
private theorem openNames_of_reads_alone (h : Reads [] s es [] rest) (name : String) :
    openNames [name] es = some [name] :=
  openNames_of_reads_inside h (List.cons_ne_nil name [])

/-! ## Texts that cannot be resolved -/

/-- An event that is no tag leaves the open names as they are. -/
private theorem nest_of_not_isTag {e : Event} (h : e.isTag = false) (names : List String) :
    e.nest names = some names := by
  cases e with
  | opened name => simp [Event.isTag] at h
  | empty name => simp [Event.isTag] at h
  | closed name => simp [Event.isTag] at h
  | _ => cases names <;> rfl

/-- Events without tags leave the open names as they are. -/
private theorem openNames_of_noTags (h : ∀ e ∈ es, e.isTag = false) (names : List String) :
    openNames names es = some names := by
  induction es with
  | nil => rfl
  | cons e es ih =>
    rw [openNames_cons, nest_of_not_isTag (h e (by simp)), Option.bind_some]
    exact ih fun e he => h e (by simp [he])

/-- Outside of the root no text counts. -/
private theorem unresolvedTexts_outside (h : ∀ e ∈ es, e.isTag = false) :
    unresolvedTexts [] es = [] := by
  induction es with
  | nil => rfl
  | cons e es ih =>
    have outside : e.textFault? [] = none := by cases e <;> rfl
    rw [unresolvedTexts, outside, nest_of_not_isTag (h e (by simp))]
    exact ih fun e he => h e (by simp [he])

/-- In an element each text counts that cannot be resolved. -/
private theorem textFault?_inside (e : Event) (name : String) :
    e.textFault? [name] = e.fault?.map fun fault => ([name], fault) := by
  cases e with
  | text raw =>
    cases resolved : resolve raw <;> simp [Event.textFault?, Event.fault?, resolved]
  | _ => rfl

/-- Without tags, the texts that cannot be resolved are those of the element around them. -/
private theorem unresolvedTexts_inside (h : ∀ e ∈ es, e.isTag = false) (name : String) :
    unresolvedTexts [name] es = (es.filterMap Event.fault?).map fun fault => ([name], fault) := by
  induction es with
  | nil => rfl
  | cons e es ih =>
    have later := ih fun e he => h e (by simp [he])
    simp only [unresolvedTexts, textFault?_inside, nest_of_not_isTag (h e (by simp)), later]
    cases fault : e.fault? <;> simp [fault]

/-- A child leaves the element around it open. -/
private theorem openNames_child (c : Child) (name : String) :
    openNames [name] c.events = some [name] :=
  openNames_of_reads_alone (c.isElement.reads []) name

/-- The texts of later events are found with the names that are open behind the earlier ones. -/
theorem unresolvedTexts_append_of_open {names names' : List String}
    (h : openNames names es = some names') (es' : List Event) :
    unresolvedTexts names (es ++ es') = unresolvedTexts names es ++ unresolvedTexts names' es' := by
  rw [unresolvedTexts_append, h]

/-- The texts that cannot be resolved are, item by item, those of the gap and those in the child. -/
private theorem unresolvedTexts_items (items : List Item) (name : String) (es : List Event) :
    unresolvedTexts [name] (items.flatMap Item.events ++ es) =
      items.flatMap (fun i => i.gap.faults.map (fun fault => ([name], fault)) ++
        unresolvedTexts [name] i.child.events) ++ unresolvedTexts [name] es := by
  induction items with
  | nil => rfl
  | cons i items ih =>
    have noTags := i.gap.noTags
    -- The gap and the child both leave `name` open for what follows them.
    rw [List.flatMap_cons, List.append_assoc, Item.events, List.append_assoc,
      unresolvedTexts_append_of_open (openNames_of_noTags noTags _),
      unresolvedTexts_append_of_open (openNames_child i.child name), unresolvedTexts_inside noTags,
      ih, List.flatMap_cons, Gap.faults]
    simp only [List.append_assoc]

/-- The texts of some content that cannot be resolved are those between the children, and those in
    the children, though not in this order. -/
theorem Content.perm_unresolvedTexts (c : Content) (name : String) :
    (unresolvedTexts [name] c.events).Perm
      ((c.gaps.flatMap Gap.faults).map (fun fault => ([name], fault)) ++
        c.children.flatMap fun child => unresolvedTexts [name] child.events) := by
  let between (g : Gap) := g.faults.map fun fault => ([name], fault)
  let inside (child : Child) := unresolvedTexts [name] child.events
  have texts : unresolvedTexts [name] c.events =
      c.items.flatMap (fun i => between i.gap ++ inside i.child) ++ between c.last := by
    rw [events, unresolvedTexts_items, unresolvedTexts_inside c.last.noTags]
    rfl
  -- In the document each gap stands before its child; here all gaps come first.
  have apart := (List.flatMap_append_perm c.items (between ·.gap) (inside ·.child)).symm
  have parts : (c.gaps.flatMap Gap.faults).map (fun fault => ([name], fault)) ++
      c.children.flatMap inside =
      c.items.flatMap (between ·.gap) ++ between c.last ++ c.items.flatMap (inside ·.child) := by
    simp [gaps, children, between, List.map_flatMap, List.flatMap_map]
  rw [texts, parts, List.append_assoc]
  -- The texts behind the last child come before those in the children.
  refine (apart.append_right _).trans ?_
  rw [List.append_assoc]
  exact List.perm_append_comm.append_left _

variable {name : String} {c : Content}

/-- Behind the root nothing is open, whatever follows. -/
private theorem Holds.openNames_append (h : Holds name c s es) (other : List Event) :
    openNames [] (es ++ other) = none := by
  cases h with
  | empty => rfl
  | pair _ opens closes named =>
    have inside := openNames_of_reads_alone c.reads name
    simp [ProjectFile.Markup.openNames_append, Event.nest, inside]

/-- Only the content of the root has texts that count, whatever follows. -/
private theorem Holds.unresolvedTexts_append (h : Holds name c s es) (other : List Event) :
    unresolvedTexts [] (es ++ other) = unresolvedTexts [name] c.events := by
  cases h with
  | empty => rfl
  | pair _ opens closes named =>
    have inside := openNames_of_reads_alone c.reads name
    simp [unresolvedTexts, ProjectFile.Markup.unresolvedTexts_append, Event.nest, inside,
      Event.textFault?]

namespace RootText

/-- The root of a document is closed. -/
theorem openNames_text (r : RootText name) : openNames [] (eventsFrom [] r.text) = none := by
  rw [r.eventsFrom_text, openNames_append, openNames_of_noTags r.prolog.noTags, Option.bind_some,
    r.holds.openNames_append]

/-- Only the texts in the content of the root count. -/
theorem unresolvedTexts_text (r : RootText name) :
    unresolvedTexts [] (eventsFrom [] r.text) = unresolvedTexts [name] r.content.events := by
  rw [r.eventsFrom_text, unresolvedTexts_append_of_open (openNames_of_noTags r.prolog.noTags []),
    unresolvedTexts_outside r.prolog.noTags, List.nil_append, r.holds.unresolvedTexts_append]

end RootText

/-! ## Splitting a document up -/

/-- A text that starts with markup, or is empty, still does so when it is cut off later. -/
private theorem StartsMarkup.of_append {other : List Char} (h : StartsMarkup (s ++ other)) :
    StartsMarkup s := by
  cases s with
  | nil => exact startsMarkup_nil
  | cons c s => exact h

/-- The first event of a document comes from a piece at its front. -/
private theorem exists_piece_of_event {e : Event} (h : nextEvent opened s = .event e opened' rest) :
    ∃ piece t, s = piece ++ rest ∧ Piece piece t ∧ (t.isText = true → StartsMarkup rest) ∧
      eventOfToken opened t = .ok (e, opened') := by
  obtain ⟨t, token, event⟩ := exists_token_of_event h
  obtain ⟨piece, -, rfl, isPiece, ends⟩ := exists_piece_of_token token
  exact ⟨piece, t, rfl, isPiece, ends, event⟩

/-- A document in which an element is open closes it behind some content. -/
inductive Closes (full : List Char) (opened opened' : List (List Char)) (rest : List Char) :
    List Char → List Event → Prop
  | behind {inner stop other : List Char} {es es' : List Event} (inside : Reads [] inner es [] [])
      (closes : Piece stop (.closeTag full)) (later : Reads opened other es' opened' rest) :
      Closes full opened opened' rest (inner ++ (stop ++ other))
        (es ++ .closed (localName full) :: es')

variable {full piece : List Char} {t : Token} {e : Event}

/-- Something without a tag in front of what closes an element leaves it closed. -/
private theorem Closes.cons (h : Closes full opened opened' rest s es) (isPiece : Piece piece t)
    (ends : t.isText = true → StartsMarkup s) (event : eventOfToken [] t = .ok (e, [])) :
    Closes full opened opened' rest (piece ++ s) (e :: es) := by
  cases h with
  | behind inside closes later =>
    have first := isPiece.reads (fun isText => (ends isText).of_append) event
    rw [← List.append_assoc, ← List.cons_append]
    exact .behind (first.trans inside) closes later

/-- A whole element in front of what closes an element leaves it closed. -/
private theorem Closes.element_append (h : Closes full opened opened' rest s es) {name : String}
    {child : List Char} {es' : List Event} (isElement : ReadsElement name child es') :
    Closes full opened opened' rest (child ++ s) (es' ++ es) := by
  cases h with
  | behind inside closes later =>
    rw [← List.append_assoc child, ← List.append_assoc es']
    exact .behind ((isElement.reads_append [] _).trans inside) closes later

/-- An element that is opened and then closed is a child, with what follows it. -/
private theorem Closes.exists_child (h : Closes full opened opened' rest s es)
    (opens : Piece piece (.openTag full)) :
    ∃ child inside other behind, piece ++ s = child ++ other ∧
      .opened (localName full) :: es = inside ++ behind ∧
      ReadsElement (localName full) child inside ∧ Reads opened other behind opened' rest ∧
      behind.length < es.length := by
  cases h with
  | @behind inner stop other within behind inside closes later =>
    have shorter : behind.length < (within ++ .closed (localName full) :: behind).length := by
      simp only [List.length_append, List.length_cons]
      omega
    exact ⟨_, _, other, behind, by simp, by simp, .pair opens inside closes rfl, later, shorter⟩

/-- An element that is open is closed by its end tag, or it stays open. -/
private theorem Reads.closes_or_inside (h : Reads (full :: opened) s es opened' rest) :
    Closes full opened opened' rest s es ∨
      ∃ above, opened' = above ++ full :: opened ∧ Reads [] s es above rest := by
  -- Behind a child that is closed, what follows is looked at, so the induction is on the number of
  -- events.
  generalize count : es.length = n
  induction n using Nat.strongRecOn generalizing full opened s es with
  | ind n ih =>
    cases h with
    | done => exact .inr ⟨[], rfl, .done _ _⟩
    | @event _ opened₁ _ _ s₁ _ e es step more =>
      obtain ⟨piece, t, rfl, isPiece, ends, event⟩ := exists_piece_of_event step
      simp only [List.length_cons] at count
      cases eventOfToken_eq_ok_iff.1 event with
      -- The first end tag at this height closes the element.
      | closeTag => exact .inl (.behind (.done _ _) isPiece more)
      -- A child is opened: either it is closed and what follows it decides, or it stays open with
      -- all that is around it.
      | openTag _ name =>
        rcases ih es.length (by omega) more rfl with closed | ⟨above, rfl, inside⟩
        · obtain ⟨child, within, other, behind, split, events, isElement, later, shorter⟩ :=
            closed.exists_child isPiece
          rw [split, events]
          rcases ih behind.length (by omega) later rfl with closed | ⟨above, rfl, outside⟩
          · exact .inl (closed.element_append isElement)
          · exact .inr ⟨above, rfl, (isElement.reads_append [] other).trans outside⟩
        · have start : Reads [] (piece ++ s₁) [.opened (localName name)] [name] s₁ :=
            isPiece.reads ends rfl
          refine .inr ⟨above ++ [name], by simp, start.trans ?_⟩
          simpa using inside.under [name]
      | _ =>
        rcases ih es.length (by omega) more rfl with closed | ⟨above, rfl, inside⟩
        · exact .inl (closed.cons isPiece ends rfl)
        · exact .inr ⟨above, rfl, (isPiece.reads ends rfl).trans inside⟩

/-- What can stand between two elements: a piece that is no tag, and what follows it there. -/
private theorem Gap.exists_cons (isPiece : Piece piece t) (event : eventOfToken [] t = .ok (e, []))
    (noTag : e.isTag = false) (g : Gap) (ends : t.isText = true → StartsMarkup g.text) :
    ∃ g' : Gap, g'.text = piece ++ g.text := by
  refine ⟨{ text := piece ++ g.text
            events := e :: g.events
            reads := (isPiece.reads ends event).trans g.reads
            noTags := ?_ }, rfl⟩
  intro e' he'
  rcases List.mem_cons.1 he' with rfl | he'
  · exact noTag
  · exact g.noTags e' he'

/-- Something without a tag is put in front of some content, in the gap of its first item. -/
private theorem Content.exists_cons (isPiece : Piece piece t)
    (event : eventOfToken [] t = .ok (e, []))
    (noTag : e.isTag = false) (c : Content) (ends : t.isText = true → StartsMarkup c.text) :
    ∃ c' : Content, c'.text = piece ++ c.text := by
  obtain ⟨items, last⟩ := c
  cases items with
  | nil =>
    obtain ⟨last', text⟩ := last.exists_cons isPiece event noTag fun isText => by
      simpa [Content.text] using ends isText
    exact ⟨⟨[], last'⟩, by simp [Content.text, text]⟩
  | cons i items =>
    obtain ⟨gap', text⟩ := i.gap.exists_cons isPiece event noTag fun isText => by
      have markup := ends isText
      simp only [Content.text, List.flatMap_cons, Item.text, List.append_assoc] at markup
      exact markup.of_append
    exact ⟨⟨⟨gap', i.child⟩ :: items, last⟩, by simp [Content.text, Item.text, text]⟩

/-- An element is put in front of some content. -/
private theorem Content.exists_child {name : String} {child : List Char}
    (isElement : ReadsElement name child es) (c : Content) :
    ∃ c' : Content, c'.text = child ++ c.text :=
  ⟨⟨⟨.empty, ⟨name, child, es, isElement⟩⟩ :: c.items, c.last⟩, by
    simp [Content.text, Item.text, Gap.empty]⟩

/-- What is read on its own is the content of an element. -/
private theorem exists_content (h : Reads [] s es [] []) : ∃ c : Content, c.text = s := by
  generalize count : es.length = n
  -- The induction is on the number of events, as a child that is closed takes several of them at
  -- once.
  induction n using Nat.strongRecOn generalizing s es with
  | ind n ih =>
    cases h with
    | done => exact ⟨.empty, rfl⟩
    | @event _ opened₁ _ _ s₁ _ e es step more =>
      obtain ⟨piece, t, rfl, isPiece, ends, event⟩ := exists_piece_of_event step
      simp only [List.length_cons] at count
      cases eventOfToken_eq_ok_iff.1 event with
      | openTag _ name =>
        rcases more.closes_or_inside with closed | ⟨above, eq, -⟩
        · obtain ⟨child, within, other, behind, split, -, isElement, later, shorter⟩ :=
            closed.exists_child isPiece
          obtain ⟨c, rfl⟩ := ih behind.length (by omega) later rfl
          exact split ▸ c.exists_child isElement
        · simp at eq
      | emptyTag =>
        obtain ⟨c, rfl⟩ := ih es.length (by omega) more rfl
        exact c.exists_child (.empty isPiece rfl)
      | _ =>
        obtain ⟨c, rfl⟩ := ih es.length (by omega) more rfl
        exact c.exists_cons isPiece rfl rfl ends

/-- What is read so that the root is closed has a prolog, a root with content, and a tail. -/
private theorem exists_rootText_of_reads (h : Reads [] s es opened' rest)
    (closes : openNames [] es = none) :
    ∃ (name : String) (r : RootText name), r.text = s := by
  generalize outside : ([] : List (List Char)) = opened at h
  -- The induction follows the events of the prolog; the first tag is that of the root.
  induction h with
  | done => simp at closes
  | @event opened opened₁ _ _ s₁ _ e es step more ih =>
    subst outside
    obtain ⟨piece, t, rfl, isPiece, ends, event⟩ := exists_piece_of_event step
    cases eventOfToken_eq_ok_iff.1 event with
    | openTag _ name =>
      rcases more.closes_or_inside with closed | ⟨above, rfl, inside⟩
      · cases closed with
        | @behind inner stop other within behind inside isStop later =>
          obtain ⟨c, rfl⟩ := exists_content inside
          exact ⟨_, ⟨.empty, c, _, _, .pair c isPiece isStop rfl, other⟩, by
            simp [RootText.text, Gap.empty]⟩
      · -- If the root stays open, its name is open at the end, against `closes`.
        have stays := openNames_of_reads_inside inside (List.cons_ne_nil (localName name) [])
        have closed : openNames [localName name] es = none := closes
        simp [closed] at stays
    | emptyTag =>
      exact ⟨_, ⟨.empty, .empty, _, _, .empty isPiece rfl, s₁⟩, rfl⟩
    | _ =>
      obtain ⟨name, r, rfl⟩ := ih closes rfl
      obtain ⟨prolog, text⟩ := r.prolog.exists_cons isPiece rfl rfl fun isText =>
        (ends isText).of_append
      exact ⟨name, { r with prolog }, by simp [RootText.text, text]⟩

/-- A document whose root is closed is what is before the root, the root, and what is behind
    it. -/
theorem exists_rootText (content : List Char) (closes : openNames [] (scan content).events = none) :
    ∃ (name : String) (r : RootText name), r.text = dropMark content :=
  exists_rootText_of_reads (reads_stop content) closes

end ProjectFile.Markup
