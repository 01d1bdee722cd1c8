import ProjectFile.Proofs.Reading.Pruning

/-!
# Ways to look at a tree

A change inside of one element of a document changes one element of its tree.  To follow such a
change through the rest of the document, both trees are looked at in a way in which the two elements
are seen as the same (`ElementView`).  What an event does to a tree is decided by what is seen of
it, so trees that are seen as the same stay so, up to the end of the document.

The problems that were found while the trees were built are no part of what is seen.

## Key results

- `Tree.seen_step`: what is seen after an event is decided by what is seen before it
- `Tree.seen_foldl_step`, `Tree.seen_root_finish`: the same of a run, and of the end of a document
-/

namespace ProjectFile

open ProjectFile.Markup

/-- A way to look at elements.  How an element is seen may depend on the names of the elements
    around it, innermost first. -/
structure ElementView where
  see : List String → Element → Element
  /-- It comes to the same to look twice. -/
  again : ∀ around e, see around (see around e) = see around e
  /-- It comes to the same to look at the children before. -/
  within : ∀ around name text children,
    see around ⟨name, text, children.map (see (name :: around))⟩ =
      see around ⟨name, text, children⟩

variable (v : ElementView)

/-! ## Open elements -/

/-- What is seen of an open element. -/
def OpenElement.seen (around : List String) (o : OpenElement) : OpenElement :=
  { o with latest := o.latest.map (v.see (o.name :: around)) }

/-- What is seen of open elements, innermost first. -/
def seenOpened : List OpenElement → List OpenElement
  | [] => []
  | o :: outer => o.seen v (outer.map OpenElement.name) :: seenOpened outer

/-- It comes to the same to look twice at an open element. -/
@[simp] theorem OpenElement.seen_seen (around : List String) (o : OpenElement) :
    (o.seen v around).seen v around = o.seen v around := by
  simp [seen, v.again]

/-- An open element is closed as what is seen of it. -/
private theorem OpenElement.see_close_seen (around : List String) (o : OpenElement) :
    v.see around (o.seen v around).close = v.see around o.close := by
  rw [close, close, seen, ← List.map_reverse, v.within]

/-- Open elements are seen with their names. -/
@[simp] theorem map_name_seenOpened (os : List OpenElement) :
    (seenOpened v os).map OpenElement.name = os.map OpenElement.name := by
  induction os with
  | nil => rfl
  | cons o outer ih => rw [seenOpened, List.map_cons, ih, List.map_cons, OpenElement.seen]

/-- It comes to the same to look twice at open elements. -/
@[simp] theorem seenOpened_seenOpened (os : List OpenElement) :
    seenOpened v (seenOpened v os) = seenOpened v os := by
  induction os with
  | nil => rfl
  | cons o outer ih =>
    rw [seenOpened, seenOpened, map_name_seenOpened, ih, OpenElement.seen_seen]

/-- All open elements are seen. -/
@[simp] theorem length_seenOpened (os : List OpenElement) :
    (seenOpened v os).length = os.length := by
  have names := congrArg List.length (map_name_seenOpened v os)
  rwa [List.length_map, List.length_map] at names

/-! ## Trees -/

namespace Tree

/-- What is seen of a tree. -/
def seen (t : Tree) : Tree where
  opened := seenOpened v t.opened
  skipped := t.skipped
  root? := t.root?.map (v.see [])

variable {v} {t t' : Tree}

/-- It comes to the same to look twice at a tree. -/
@[simp] theorem seen_seen (t : Tree) : (t.seen v).seen v = t.seen v := by
  obtain ⟨opened, skipped, root?, latest⟩ := t
  cases root? <;> simp [seen, v.again]

/-- A tree is seen with its path. -/
private theorem path_seen (t : Tree) : (t.seen v).path = t.path := by
  rw [path, seen, map_name_seenOpened, path]

/-- It is seen whether the root is closed. -/
private theorem isSome_root_seen (t : Tree) : (t.seen v).root?.isSome = t.root?.isSome := by
  rw [seen, Option.isSome_map]

/-- A problem is not seen. -/
@[simp] theorem seen_note (t : Tree) (p : Problem) : (t.note p).seen v = t.seen v := rfl

/-- Where an element is put, it is seen as what else is seen as the same. -/
theorem seen_attach {e e' : Element} (same : v.see t.around e = v.see t.around e') :
    (t.attach e).seen v = ((t.seen v).attach e').seen v := by
  obtain ⟨opened, skipped, root?, latest⟩ := t
  -- An element with nothing around it is the root, any other one a child of the innermost one.
  cases opened with
  | nil =>
    have alike : v.see [] e = v.see [] e' := same
    simp [attach, seen, seenOpened, alike]
  | cons o outer =>
    have alike : v.see (o.name :: outer.map OpenElement.name) e =
        v.see (o.name :: outer.map OpenElement.name) e' := same
    cases root? <;> simp [attach, seen, seenOpened, OpenElement.seen, alike, v.again]

/-- A text is added to what is seen. -/
private theorem seen_append (t : Tree) (text : List Char) :
    (t.append text).seen v = ((t.seen v).append text).seen v := by
  obtain ⟨opened, skipped, root?, latest⟩ := t
  cases opened with
  | nil => cases root? <;> simp [append, seen, seenOpened, v.again]
  | cons o outer => cases root? <;> simp [append, seen, seenOpened, OpenElement.seen, v.again]

/-- Closing an element, what is seen of it is put where it was. -/
private theorem seen_closeInnermost (t : Tree) :
    t.closeInnermost.seen v = (t.seen v).closeInnermost.seen v := by
  obtain ⟨opened, skipped, root?, latest⟩ := t
  cases opened with
  | nil => exact (seen_seen _).symm
  | cons o outer =>
    exact seen_attach (t := ⟨outer, skipped, root?, latest⟩)
      (OpenElement.see_close_seen v _ o).symm

/-- A text is resolved, or not, whatever is seen of the tree. -/
private theorem seen_addText (t : Tree) (raw : List Char) :
    (t.addText raw).seen v = ((t.seen v).addText raw).seen v := by
  have empty : (t.seen v).opened.isEmpty = t.opened.isEmpty := by
    rw [Bool.eq_iff_iff, List.isEmpty_iff_length_eq_zero, List.isEmpty_iff_length_eq_zero, seen,
      length_seenOpened]
  unfold addText
  rw [empty]
  split
  · exact (seen_seen t).symm
  · cases resolve raw with
    | ok text => exact seen_append t text
    | error fault =>
      simp only [seen_note]
      exact seen_append t raw

/-! ### Events -/

variable (keeps : List String → Bool)

/-- What an event changes is decided by what is seen. -/
private theorem seen_advance (t : Tree) (e : Event) :
    (t.advance keeps e).seen v = ((t.seen v).advance keeps e).seen v := by
  have deep (n : Nat) : ({ t with skipped := n } : Tree).seen v =
      ({ t.seen v with skipped := n } : Tree).seen v :=
    congrArg (fun u : Tree => { u with skipped := n }) (seen_seen t).symm
  have skipped : (t.seen v).skipped = t.skipped := rfl
  -- What is kept is decided by names and depths, which a view leaves as they are.
  cases e with
  | opened name =>
    simp only [advance, skipped, path_seen]
    split
    · exact deep _
    · split
      · have new : OpenElement.seen v (t.opened.map OpenElement.name) { name } = { name } := rfl
        have below := seen_seen (v := v) t
        simp only [seen, mk.injEq] at below
        simp [seen, seenOpened, new, below]
      · exact deep _
  | empty name =>
    simp only [advance, skipped, path_seen]
    split
    · exact seen_attach rfl
    · exact (seen_seen t).symm
  | closed name =>
    simp only [advance, skipped]
    split
    · exact deep _
    · exact seen_closeInnermost t
  | text raw =>
    simp only [advance, skipped]
    split
    · exact (seen_seen t).symm
    · exact seen_addText t raw
  | data content =>
    simp only [advance, skipped]
    split
    · exact (seen_seen t).symm
    · exact seen_append t content
  | aside => exact (seen_seen t).symm

/-- What is seen after an event is decided by what is seen before it. -/
theorem seen_step (t : Tree) (e : Event) :
    (t.step keeps e).seen v = ((t.seen v).step keeps e).seen v := by
  rw [step, step, isSome_root_seen]
  split
  · exact (seen_seen t).symm
  · exact seen_advance keeps t e

/-- Trees that are seen as the same stay so in a run. -/
theorem seen_foldl_step (h : t.seen v = t'.seen v) (es : List Event) :
    (es.foldl (step keeps) t).seen v = (es.foldl (step keeps) t').seen v := by
  induction es generalizing t t' with
  | nil => exact h
  | cons e es ih => exact ih (by rw [seen_step, h, ← seen_step])

/-! ### The end of a document -/

/-- Trees that are seen as the same are so after some of their elements are closed. -/
private theorem seen_closeMany (h : t.seen v = t'.seen v) (n : Nat) :
    (t.closeMany n).seen v = (t'.closeMany n).seen v := by
  induction n generalizing t t' with
  | zero => exact h
  | succ n ih => exact ih (by rw [seen_closeInnermost, h, ← seen_closeInnermost])

/-- Trees that are seen as the same have equally many open elements. -/
private theorem length_opened_of_seen (h : t.seen v = t'.seen v) :
    t.opened.length = t'.opened.length := by
  have opened := congrArg (fun u : Tree => u.opened.length) h
  simpa [seen] using opened

/-- Trees that are seen as the same have roots that are seen as the same at the end of the document,
    however the two documents end. -/
theorem seen_root_finish (h : t.seen v = t'.seen v) (ending ending' : Ending) :
    (t.finish ending).root?.map (v.see []) = (t'.finish ending').root?.map (v.see []) := by
  have same : t.root?.isSome = t'.root?.isSome := by
    rw [← isSome_root_seen (v := v), h, isSome_root_seen]
  -- A root that is closed stays; if none is, all that is open is closed, one element after the
  -- other.
  cases root : t.root?.isSome with
  | true =>
    rw [finish_of_root root, finish_of_root (same ▸ root)]
    exact congrArg root? h
  | false =>
    have none (u : Tree) (hu : u.root?.isSome = false) : u.root? = .none := by simpa using hu
    rw [root_finish (none t root), root_finish (none t' (same ▸ root)), length_opened_of_seen h]
    exact congrArg root? (seen_closeMany h _)

end Tree

end ProjectFile
