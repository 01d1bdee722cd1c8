import ProjectFile.Proofs.Markup.Reference
import ProjectFile.Proofs.Reading.Skipping

/-!
# Building a tree

While the whole tree of a document is built, `Tree.Building` says which elements are open, with
what they hold so far, and that the root is one of them.

## Key results

- `Tree.Building.opening`, `Tree.Building.take_text`, `Tree.Building.closing`: what an event does
  to the open elements
- `Tree.Building.root_closing`: the end tag of the root gives the tree its root
-/

namespace ProjectFile

open ProjectFile.Markup

/-- What a text adds to the element around it. -/
def heldText (raw : List Char) : String :=
  match resolve raw with
  | .ok text => String.ofList text
  | .error _ => String.ofList raw

/-- An empty text adds nothing. -/
theorem heldText_nil : heldText [] = "" := by
  rw [heldText, resolve_of_plain (by simp)]

/-- A tree is being built, and these elements are open in it. -/
structure Tree.Building (opened : List OpenElement) (t : Tree) : Prop where
  opened : t.opened = opened
  root : t.root? = none

namespace Tree

variable {o p : OpenElement} {os : List OpenElement} {t : Tree}

/-- At the start of a document nothing is open. -/
theorem building_nil : Building [] {} :=
  ⟨rfl, rfl⟩

/-- A start tag opens an element inside of those that are open. -/
theorem Building.opening (h : t.Building os) (name : String) :
    (t.take (.opened name)).Building ({ name } :: os) := by
  refine ⟨?_, ?_⟩ <;> simp [take, h.root, h.opened]

/-- A text is added to the innermost element. -/
theorem Building.take_text (h : t.Building (o :: os)) (raw : List Char) :
    (t.take (.text raw)).Building ({ o with text := o.text ++ heldText raw } :: os) := by
  have opened := h.opened
  rw [take, h.root]
  simp only [Option.isSome_none, Bool.false_eq_true, if_false, addText, opened, heldText]
  cases resolve raw with
  | ok text => exact ⟨by simp [append, opened], by simp [append, opened, h.root]⟩
  | error fault => exact ⟨by simp [append, opened, note], by simp [append, opened, note, h.root]⟩

/-- The content of a CDATA section is added to the innermost element as it is. -/
theorem Building.take_data (h : t.Building (o :: os)) (content : List Char) :
    (t.take (.data content)).Building
      ({ o with text := o.text ++ String.ofList content } :: os) := by
  refine ⟨?_, ?_⟩ <;> simp [take, h.root, append, h.opened]

/-- What is set aside changes nothing. -/
theorem Building.take_aside (h : t.Building os) : (t.take .aside).Building os := by
  refine ⟨?_, ?_⟩ <;> simp [take, h.root, h.opened]

/-- An empty tag adds a child to the innermost element. -/
theorem Building.take_empty (h : t.Building (o :: os)) (name : String) :
    (t.take (.empty name)).Building ({ o with latest := { name } :: o.latest } :: os) := by
  refine ⟨?_, ?_⟩ <;> simp [take, h.root, attach, h.opened]

/-- The innermost element becomes a child of the one around it. -/
theorem Building.closeInnermost (h : t.Building (o :: p :: os)) :
    t.closeInnermost.Building ({ p with latest := o.close :: p.latest } :: os) := by
  have opened := h.opened
  refine ⟨?_, ?_⟩ <;> simp [Tree.closeInnermost, opened, attach, h.root]

/-- Closing the outermost element gives the tree its root. -/
theorem Building.root_closeInnermost (h : t.Building [o]) :
    t.closeInnermost.root? = some o.close := by
  have opened := h.opened
  simp [Tree.closeInnermost, opened, attach]

/-- An end tag closes the innermost element, whatever its name is. -/
private theorem Building.take_closed (h : t.Building os) (name : String) :
    t.take (.closed name) = t.closeInnermost := by
  rw [take, h.root]
  rfl

/-- An end tag makes the innermost element a child of the one around it. -/
theorem Building.closing (h : t.Building (o :: p :: os)) (name : String) :
    (t.take (.closed name)).Building ({ p with latest := o.close :: p.latest } :: os) := by
  rw [h.take_closed]
  exact h.closeInnermost

/-- The end tag of the root gives the tree its root. -/
theorem Building.root_closing (h : t.Building [o]) (name : String) :
    (t.take (.closed name)).root? = some o.close := by
  rw [h.take_closed]
  exact h.root_closeInnermost

end Tree

end ProjectFile
