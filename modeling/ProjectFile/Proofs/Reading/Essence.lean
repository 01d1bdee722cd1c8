import ProjectFile.Proofs.Reading.Skipping

/-!
# What counts in a tree

Of the texts in a tree, only those count that are read as values, and of those only what is
between the white space at both ends.  The essence of an element is what counts of it, and trees
are alike if they have the same essence (`Tree.Alike`).

While an element is open, its text may still go on, so the white space at its end counts for now.
Each event keeps trees alike, and trees that are alike are read as the same.

## Key results

- `Element.faithful_essence`: an element is read as its essence is
- `Tree.Alike.foldl_step`: a run keeps trees alike
- `Tree.Alike.reading`: trees that are alike are read as the same
-/

namespace ProjectFile

open ProjectFile.Text ProjectFile.Markup

/-! ## The essence of an element -/

mutual

/-- What counts of an element: its name, the value of it if that is read, and what counts of its
    children.  The names of the elements around it are `around`, innermost first. -/
def Element.essence (around : List String) : Element → Element
  | ⟨name, text, children⟩ =>
    ⟨name, if holdsValue (name :: around) then trim text else "",
      Element.essences (name :: around) children⟩

/-- What counts of elements. -/
def Element.essences (around : List String) : List Element → List Element
  | [] => []
  | e :: es => e.essence around :: Element.essences around es

end

namespace Element

/-- What counts of elements is taken element by element. -/
private theorem essences_eq_map (around : List String) (es : List Element) :
    essences around es = es.map (essence around) := by
  induction es with
  | nil => rfl
  | cons e es ih => rw [essences, ih, List.map_cons]

/-- What counts of an element, with that of its children taken one by one. -/
theorem essence_mk (around : List String) (name text : String) (children : List Element) :
    (⟨name, text, children⟩ : Element).essence around =
      ⟨name, if holdsValue (name :: around) then trim text else "",
        children.map (essence (name :: around))⟩ := by
  rw [essence, essences_eq_map]

/-- An element is read as its essence is. -/
theorem faithful_essence : Faithful essence where
  name around e := by
    cases e
    rw [essence]
  value around e read := by
    cases e
    rw [essence_mk, if_pos read, value, value, trim_trim]
  children around e _ := by
    cases e
    rw [essence_mk]

end Element

/-! ## Open elements -/

namespace OpenElement

/-- What counts of an open element: its text if it is to be read as a value, and what counts of
    its children so far. -/
def essence (around : List String) (o : OpenElement) : OpenElement where
  name := o.name
  text := if holdsValue (o.name :: around) then o.text else ""
  latest := o.latest.map (Element.essence (o.name :: around))

variable {around : List String} {o o' : OpenElement}

/-- Open elements that are alike have the same name. -/
private theorem name_eq_of_essence (h : o.essence around = o'.essence around) :
    o.name = o'.name := by
  have := congrArg OpenElement.name h
  exact this

/-- Open elements that are alike are closed as elements that are alike. -/
private theorem essence_close (h : o.essence around = o'.essence around) :
    o.close.essence around = o'.close.essence around := by
  have name := name_eq_of_essence h
  have text := congrArg OpenElement.text h
  have latest := congrArg OpenElement.latest h
  simp only [essence, name] at text latest
  rw [close, close, Element.essence_mk, Element.essence_mk, name, List.map_reverse, latest,
    List.map_reverse]
  -- The text is trimmed when the element is closed, if it counts.
  split
  · rename_i read
    rw [if_pos read, if_pos read] at text
    rw [text]
  · rfl

/-- Open elements that are alike stay so when the same text is added to them. -/
private theorem essence_text (h : o.essence around = o'.essence around) (text : String) :
    ({ o with text := o.text ++ text } : OpenElement).essence around =
      ({ o' with text := o'.text ++ text } : OpenElement).essence around := by
  obtain ⟨name, own, latest⟩ := o
  obtain ⟨name', own', latest'⟩ := o'
  simp only [essence, mk.injEq] at h ⊢
  obtain ⟨rfl, texts, children⟩ := h
  refine ⟨rfl, ?_, children⟩
  split
  · rename_i read
    rw [if_pos read, if_pos read] at texts
    rw [texts]
  · rfl

/-- Open elements that are alike stay so when they get children that are alike. -/
private theorem essence_latest (h : o.essence around = o'.essence around) {e e' : Element}
    (same : e.essence (o.name :: around) = e'.essence (o.name :: around)) :
    ({ o with latest := e :: o.latest } : OpenElement).essence around =
      ({ o' with latest := e' :: o'.latest } : OpenElement).essence around := by
  obtain ⟨name, own, latest⟩ := o
  obtain ⟨name', own', latest'⟩ := o'
  simp only [essence, mk.injEq] at h ⊢
  obtain ⟨rfl, texts, children⟩ := h
  exact ⟨rfl, texts, by rw [List.map_cons, List.map_cons, same, children]⟩

end OpenElement

/-- What counts of open elements, innermost first. -/
def essencesOpened : List OpenElement → List OpenElement
  | [] => []
  | o :: outer => o.essence (outer.map OpenElement.name) :: essencesOpened outer

/-- Names always count. -/
private theorem map_name_essencesOpened (os : List OpenElement) :
    (essencesOpened os).map OpenElement.name = os.map OpenElement.name := by
  induction os with
  | nil => rfl
  | cons o outer ih => rw [essencesOpened, List.map_cons, ih, List.map_cons, OpenElement.essence]

/-! ## Trees that are alike -/

namespace Tree

/-- Trees are alike if they differ only in what does not count. -/
structure Alike (t t' : Tree) : Prop where
  opened : essencesOpened t.opened = essencesOpened t'.opened
  skipped : t.skipped = t'.skipped
  root : t.root?.map (Element.essence []) = t'.root?.map (Element.essence [])
  latest : t.latest = t'.latest

variable {t t' u : Tree}

/-- A tree is like itself. -/
theorem Alike.refl (t : Tree) : t.Alike t :=
  ⟨rfl, rfl, rfl, rfl⟩

/-- Trees that are like the same tree are alike. -/
theorem Alike.trans (h : t.Alike t') (h' : t'.Alike u) : t.Alike u :=
  ⟨h.opened.trans h'.opened, h.skipped.trans h'.skipped, h.root.trans h'.root,
    h.latest.trans h'.latest⟩

/-- Trees that are alike are complete together. -/
theorem Alike.isSome_root (h : t.Alike t') : t.root?.isSome = t'.root?.isSome := by
  have := congrArg Option.isSome h.root
  rwa [Option.isSome_map, Option.isSome_map] at this

/-- In trees that are alike, elements with the same names are open. -/
private theorem Alike.around_eq (h : t.Alike t') : t.around = t'.around := by
  rw [around, around, ← map_name_essencesOpened, h.opened, map_name_essencesOpened]

/-- In trees that are alike, the path to what is open is the same. -/
private theorem Alike.path_eq (h : t.Alike t') : t.path = t'.path :=
  congrArg List.reverse h.around_eq

/-- Problems in trees that are alike name the same element. -/
private theorem Alike.innermost_eq (h : t.Alike t') : t.innermost = t'.innermost := by
  have name : ∀ p : Tree, p.innermost = p.around.headD "" := by
    intro p
    rw [innermost, around]
    cases p.opened <;> rfl
  rw [name, name, h.around_eq]

/-- Trees that are alike have nothing open, or have innermost elements that are alike. -/
private theorem Alike.opened_cases (h : t.Alike t') :
    (t.opened = [] ∧ t'.opened = []) ∨
      ∃ o o' outer outer', t.opened = o :: outer ∧ t'.opened = o' :: outer' ∧
        outer.map OpenElement.name = outer'.map OpenElement.name ∧
        o.essence (outer.map OpenElement.name) = o'.essence (outer.map OpenElement.name) ∧
        essencesOpened outer = essencesOpened outer' := by
  have same := h.opened
  cases opened : t.opened with
  | nil =>
    cases opened' : t'.opened with
    | nil => exact .inl ⟨rfl, rfl⟩
    | cons o' outer' => simp [opened, opened', essencesOpened] at same
  | cons o outer =>
    cases opened' : t'.opened with
    | nil => simp [opened, opened', essencesOpened] at same
    | cons o' outer' =>
      rw [opened, opened', essencesOpened, essencesOpened, List.cons.injEq] at same
      -- Elements have the names of their essences.
      have names : outer.map OpenElement.name = outer'.map OpenElement.name := by
        rw [← map_name_essencesOpened, same.2, map_name_essencesOpened]
      exact .inr ⟨o, o', outer, outer', rfl, rfl, names, names ▸ same.1, same.2⟩

/-- In trees that are alike, something is open in both or in neither. -/
private theorem Alike.isEmpty_opened (h : t.Alike t') : t.opened.isEmpty = t'.opened.isEmpty := by
  rcases h.opened_cases with ⟨empty, empty'⟩ | ⟨o, o', outer, outer', eq, eq', -⟩
  · rw [empty, empty']
  · rw [eq, eq']
    rfl

/-! ### Changes to the innermost element -/

/-- The same problem keeps trees alike. -/
private theorem Alike.note (h : t.Alike t') (p : Problem) : (t.note p).Alike (t'.note p) :=
  ⟨h.opened, h.skipped, h.root, by rw [Tree.note, Tree.note, h.latest]⟩

/-- Trees that are alike stay so when as many elements are passed over in both. -/
private theorem Alike.skip (h : t.Alike t') (n : Nat) :
    ({ t with skipped := n } : Tree).Alike { t' with skipped := n } :=
  ⟨h.opened, rfl, h.root, h.latest⟩

/-- Opening elements with the same name keeps trees alike. -/
private theorem Alike.open (h : t.Alike t') (name : String) :
    ({ t with opened := { name } :: t.opened } : Tree).Alike
      { t' with opened := { name } :: t'.opened } := by
  refine ⟨?_, h.skipped, h.root, h.latest⟩
  rw [essencesOpened, essencesOpened, h.opened]
  congr 2
  exact h.around_eq

/-- Attaching elements that are alike in the place where they stand. -/
theorem Alike.attach (h : t.Alike t') {e e' : Element}
    (same : e.essence t.around = e'.essence t.around) : (t.attach e).Alike (t'.attach e') := by
  rcases h.opened_cases with ⟨empty, empty'⟩ | ⟨o, o', outer, outer', eq, eq', names, own, rest⟩
  · -- Nothing is open, so the elements are the roots of the trees.
    have root : e.essence [] = e'.essence [] := by
      simpa [around, empty] using same
    simp only [Tree.attach, empty, empty']
    exact ⟨rfl, h.skipped, by simp [root], h.latest⟩
  · rw [around, eq, List.map_cons] at same
    simp only [Tree.attach, eq, eq']
    refine ⟨?_, h.skipped, h.root, h.latest⟩
    rw [essencesOpened, essencesOpened, rest, ← names, OpenElement.essence_latest own same]

/-- The same text keeps trees alike. -/
private theorem Alike.append (h : t.Alike t') (text : List Char) :
    (t.append text).Alike (t'.append text) := by
  rcases h.opened_cases with ⟨empty, empty'⟩ | ⟨o, o', outer, outer', eq, eq', names, own, rest⟩
  · simp only [Tree.append, empty, empty']
    exact h
  · simp only [Tree.append, eq, eq']
    refine ⟨?_, h.skipped, h.root, h.latest⟩
    rw [essencesOpened, essencesOpened, rest, ← names, OpenElement.essence_text own]

/-- Closing the innermost element keeps trees alike. -/
private theorem Alike.closeInnermost (h : t.Alike t') :
    t.closeInnermost.Alike t'.closeInnermost := by
  rcases h.opened_cases with ⟨empty, empty'⟩ | ⟨o, o', outer, outer', eq, eq', names, own, rest⟩
  · simp only [Tree.closeInnermost, empty, empty']
    exact h
  · simp only [Tree.closeInnermost, eq, eq']
    -- The elements around the innermost one are alike, and get it as a child.
    have inner : ({ t with opened := outer } : Tree).Alike { t' with opened := outer' } :=
      ⟨rest, h.skipped, h.root, h.latest⟩
    exact inner.attach (OpenElement.essence_close own)

/-- The same raw text keeps trees alike, and has the same problem in both. -/
private theorem Alike.addText (h : t.Alike t') (raw : List Char) :
    (t.addText raw).Alike (t'.addText raw) := by
  unfold Tree.addText
  rw [h.isEmpty_opened]
  split
  · exact h
  · cases resolve raw with
    | ok text => exact h.append text
    | error fault =>
      rw [h.innermost_eq]
      exact (h.append raw).note _

/-! ### Events -/

/-- One event keeps trees alike. -/
theorem Alike.step (h : t.Alike t') (keeps : List String → Bool) (e : Event) :
    (t.step keeps e).Alike (t'.step keeps e) := by
  unfold Tree.step
  rw [h.isSome_root]
  split
  · exact h
  · unfold advance
    rw [h.skipped, h.path_eq]
    -- The same elements are passed over in both trees, so each event does the same in both.
    cases e with
    | opened name =>
      simp only
      split
      · exact h.skip _
      · split
        · have opened := h.open name
          rwa [h.skipped] at opened
        · exact h.skip _
    | empty name =>
      simp only
      split
      · exact h.attach rfl
      · exact h
    | closed name =>
      simp only
      split
      · exact h.skip _
      · exact h.closeInnermost
    | text raw =>
      simp only
      split
      · exact h
      · exact h.addText raw
    | data content =>
      simp only
      split
      · exact h
      · exact h.append content
    | aside => exact h

/-- A run keeps trees alike. -/
theorem Alike.foldl_step (h : t.Alike t') (keeps : List String → Bool) (es : List Event) :
    (es.foldl (Tree.step keeps) t).Alike (es.foldl (Tree.step keeps) t') := by
  induction es generalizing t t' with
  | nil => exact h
  | cons e es ih => exact ih (h.step keeps e)

/-- Trees that are alike are read as the same. -/
theorem Alike.reading [Uri.DomainNames] (h : t.Alike t') : t.reading = t'.reading := by
  have ext : ∀ r r' : Reading, r.description? = r'.description? → r.notes = r'.notes → r = r' := by
    rintro ⟨d, ns⟩ ⟨d', ns'⟩ rfl rfl
    rfl
  have faithful := Element.faithful_essence
  apply ext
  · -- Both trees are read as their essences are.
    rw [description?_reading, description?_reading, ← faithful.descriptionOf?, h.root,
      faithful.descriptionOf?]
  · rw [notes_reading, notes_reading, ← faithful.notesOn, h.root, faithful.notesOn, problems,
      problems, h.latest]

end Tree

end ProjectFile
