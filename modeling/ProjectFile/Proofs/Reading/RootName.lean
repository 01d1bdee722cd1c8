import Mathlib.Data.List.Basic
import ProjectFile.Proofs.Markup.CutOff
import ProjectFile.Proofs.Reading.Skipping

/-!
# When there is a description

The root of a document is the first element that is opened, by a start tag or by the tag of an
empty element (`rootName?`).  It is there whatever follows: if it is not closed by the document,
it is closed at the end.  So there is a description exactly if that first element has the name of
a description.

## Key results

- `Tree.name_root_whole`: the root of the tree is the first element that is opened
- `Reading.description?_ofText_eq_none_iff`: when a document gives no description
-/

namespace ProjectFile

open ProjectFile.Markup

namespace Markup

/-- The local name of the element that an event opens. -/
def Event.opened? : Event → Option String
  | .opened name => some name
  | .empty name => some name
  | _ => none

/-- The local name of the first element that is opened. -/
def rootName? (es : List Event) : Option String :=
  es.findSome? Event.opened?

/-- A document that is cut off has the first element of the whole document, if it has any. -/
private theorem rootName?_of_cutOff {es full : List Event} {name : String} (h : CutOff es full)
    (root : rootName? es = some name) : rootName? full = some name := by
  obtain ⟨whole, part, rfl, ⟨more, rfl⟩, isPart⟩ := h
  -- A part of a text opens no element.
  have nothing : part.findSome? Event.opened? = none := by
    rcases isPart with rfl | ⟨raw, rfl⟩ <;> rfl
  rw [rootName?, List.findSome?_append, nothing, Option.or_none] at root
  rw [rootName?, List.findSome?_append, root, Option.some_or]

end Markup

namespace Tree

/-- The name of the root, whether it is closed already or still open. -/
def rootName? (t : Tree) : Option String :=
  match t.root? with
  | some root => some root.name
  | none => t.opened.getLast?.map OpenElement.name

/-- A root that is closed is the one that counts. -/
private theorem rootName?_of_root {t : Tree} {root : Element} (h : t.root? = some root) :
    t.rootName? = some root.name := by
  rw [rootName?, h]

/-- While no root is closed, the outermost open element is the root. -/
private theorem rootName?_of_opened {t : Tree} {os : List OpenElement} (root : t.root? = none)
    (opened : t.opened = os) : t.rootName? = os.getLast?.map OpenElement.name := by
  rw [rootName?, root, opened]

/-- The root is the outermost open element. -/
private theorem name_getLast?_cons (o : OpenElement) (os : List OpenElement) :
    (o :: os).getLast?.map OpenElement.name =
      (os.getLast?.map OpenElement.name).or (some o.name) := by
  cases os with
  | nil => rfl
  | cons next os =>
    rw [List.getLast?_cons_cons, List.getLast?_eq_some_getLast (List.cons_ne_nil next os)]
    rfl

/-- An element is attached inside of the root, or becomes the root. -/
private theorem rootName?_attach {t : Tree} (h : t.root? = none) (e : Element) :
    (t.attach e).rootName? = t.rootName?.or (some e.name) := by
  unfold attach
  split
  · rename_i outside
    rw [rootName?_of_opened h outside]
    rfl
  · rename_i o outer inside
    simp only [rootName?, h, inside, name_getLast?_cons, Option.or_assoc, Option.some_or]

/-- A text names no element. -/
private theorem rootName?_append (t : Tree) (text : List Char) :
    (t.append text).rootName? = t.rootName? := by
  unfold append
  split
  · rfl
  · rename_i o outer inside
    simp only [rootName?, inside, name_getLast?_cons]

/-- A problem names no element. -/
private theorem rootName?_note (t : Tree) (p : Problem) : (t.note p).rootName? = t.rootName? := rfl

/-- A text, resolved or not, names no element. -/
private theorem rootName?_addText (t : Tree) (raw : List Char) :
    (t.addText raw).rootName? = t.rootName? := by
  unfold addText
  split
  · rfl
  · split
    · exact rootName?_append t _
    · rw [rootName?_note, rootName?_append]

/-- Closing elements does not change which element is the root. -/
private theorem rootName?_closeInnermost {t : Tree} (h : t.root? = none) :
    t.closeInnermost.rootName? = t.rootName? := by
  unfold closeInnermost
  split
  · rfl
  · rename_i o outer inside
    rw [rootName?_attach (t := { t with opened := outer }) h, rootName?_of_opened h inside,
      rootName?_of_opened (t := { t with opened := outer }) h rfl, name_getLast?_cons]
    rfl

/-- Each event opens the root, or leaves it as it is. -/
private theorem rootName?_take (t : Tree) (e : Event) :
    (t.take e).rootName? = t.rootName?.or e.opened? := by
  unfold take
  cases h : t.root? with
  -- The root is closed: the event changes nothing.
  | some root =>
    rw [rootName?_of_root h]
    exact rootName?_of_root h
  -- The root is open, or not there: only an event that opens an element can name it.
  | none =>
    rw [Option.isSome_none, if_neg Bool.false_ne_true]
    cases e with
    | opened name =>
      rw [rootName?_of_opened h rfl]
      exact (rootName?_of_opened rfl rfl).trans (name_getLast?_cons { name } t.opened)
    | empty name => exact rootName?_attach h _
    | closed name => simp [rootName?_closeInnermost h, Event.opened?]
    | text raw => simp [rootName?_addText, Event.opened?]
    | data content => simp [rootName?_append, Event.opened?]
    | aside => simp [Event.opened?]

/-- After a run the root is the one that was there, or the first that an event opens. -/
private theorem rootName?_foldl_take (t : Tree) (es : List Event) :
    (es.foldl take t).rootName? = t.rootName?.or (Markup.rootName? es) := by
  induction es generalizing t with
  | nil => simp [Markup.rootName?]
  | cons e es ih =>
    rw [List.foldl_cons, ih, rootName?_take, Markup.rootName?, Markup.rootName?,
      List.findSome?_cons]
    -- Only the first event that opens an element counts.
    cases e.opened? with
    | none => simp
    | some name => simp

/-- Closing an element inside of another one closes no root. -/
private theorem root_closeInnermost {t : Tree} {o p : OpenElement} {os : List OpenElement}
    (opened : t.opened = o :: p :: os) : t.closeInnermost.root? = t.root? := by
  rw [closeInnermost, opened]
  rfl

/-- Closing all that is open closes the root. -/
private theorem name_root_closeMany {t : Tree} (h : t.root? = none) :
    (t.closeMany t.opened.length).root?.map Element.name = t.rootName? := by
  -- One element after the other is closed; the last one is the root.
  generalize count : t.opened.length = n
  induction n generalizing t with
  | zero =>
    rw [closeMany, h, rootName?_of_opened h (List.length_eq_zero_iff.1 count)]
    rfl
  | succ n ih =>
    obtain ⟨o, outer, opened⟩ := List.exists_cons_of_length_eq_add_one count
    have fewer : t.closeInnermost.opened.length = n := by
      rw [length_opened_closeInnermost, count, Nat.add_sub_cancel]
    rw [closeMany, ← rootName?_closeInnermost h]
    cases outer with
    | nil =>
      have none : n = 0 := by
        rw [opened, List.length_singleton] at count
        omega
      have root : t.closeInnermost.root? = some o.close := by
        rw [closeInnermost, opened]
        rfl
      rw [none, closeMany, root, rootName?_of_root root]
      rfl
    | cons p os => exact ih (root_closeInnermost opened ▸ h) fewer

/-- The root of the whole tree is the first element that the document opens. -/
theorem name_root_whole (s : Scan) :
    (whole s).root?.map Element.name = Markup.rootName? s.events := by
  have opened : (s.events.foldl take {}).rootName? = Markup.rootName? s.events :=
    rootName?_foldl_take {} s.events
  rw [← opened, whole]
  cases h : (s.events.foldl take {}).root? with
  | some root =>
    rw [finish_of_root (by rw [h]; rfl), h, rootName?_of_root h]
    rfl
  | none => rw [root_finish h, name_root_closeMany h]

end Tree

namespace Reading

/-- A document gives no description exactly if no element is opened before it ends or breaks off,
    or the first one has not the name of a description.  Once a document has opened the root of
    a description, it gives a description, whatever follows. -/
theorem description?_ofText_eq_none_iff [Uri.DomainNames] (content : String) :
    ((ofText content).description? = none ↔
        rootName? (scan content.toList).events ≠ some "projectDescription") ∧
      (rootName? (scan content.toList).events = some "projectDescription" →
        ∀ tail, (ofText (content ++ tail)).description? ≠ none) := by
  have nothing : ∀ content : String, (ofText content).description? = none ↔
      rootName? (scan content.toList).events ≠ some "projectDescription" := by
    intro content
    rw [description?_ofText, ← Tree.name_root_whole]
    cases (Tree.whole (scan content.toList)).root? with
    | none => simp [descriptionOf?]
    | some root => simp [descriptionOf?]
  refine ⟨nothing content, fun root tail => ?_⟩
  -- The events of the longer document go on behind those of the shorter one.
  have same := rootName?_of_cutOff (cutOff_scan content.toList tail.toList) root
  rw [Ne, nothing, String.toList_append]
  exact fun other => other same

/-- A root with a namespace and an attribute, and behind it what is no markup at all. -/
theorem description?_ofText_unclosed :
    let content := "<!-- a --><e:projectDescription a='>'>"
    rootName? (scan content.toList).events = some "projectDescription" ∧
      (ofText (content ++ "&x;</name><![")).description? ≠ none := by
  have root : rootName? (scan "<!-- a --><e:projectDescription a='>'>".toList).events =
      some "projectDescription" := by decide +kernel
  exact ⟨root, (description?_ofText_eq_none_iff _).2 root _⟩

end Reading

end ProjectFile
