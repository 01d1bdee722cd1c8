import ProjectFile.Proofs.Reading.Found

/-!
# Passing over is pruning

A tree that is built with only some children kept is the tree of the whole document, pruned: each
element has its name and text, and has its children only if its path is among the kept ones.

The two trees are compared while they grow (`Skips`).  Each event takes the pruned form of one to
the pruned form of the next, however deep the smaller tree has passed over at that place, and
closing what is open keeps the two in step as well.

## Key results

- `Tree.Skips.step`: one event keeps the two trees in step
- `Tree.root_ofScan`: the tree of a document is the whole tree, pruned
-/

namespace ProjectFile

open ProjectFile.Markup

/-! ## Pruned elements -/

mutual

/-- An element without the children that are not kept; `around` are the names of the elements
    around it, innermost first. -/
def Element.prune (keeps : List String → Bool) (around : List String) : Element → Element
  | ⟨name, text, children⟩ =>
    ⟨name, text,
      if keeps (name :: around).reverse then Element.pruneAll keeps (name :: around) children
      else []⟩

/-- Elements without the children that are not kept. -/
def Element.pruneAll (keeps : List String → Bool) (around : List String) :
    List Element → List Element
  | [] => []
  | e :: es => e.prune keeps around :: Element.pruneAll keeps around es

end

/-- Elements are pruned one by one. -/
private theorem Element.pruneAll_eq_map (keeps : List String → Bool) (around : List String)
    (es : List Element) : Element.pruneAll keeps around es = es.map (Element.prune keeps around) := by
  induction es with
  | nil => rfl
  | cons e es ih => rw [pruneAll, ih, List.map_cons]

/-- Pruning keeps the name. -/
@[simp] theorem Element.name_prune (keeps : List String → Bool) (around : List String)
    (e : Element) : (e.prune keeps around).name = e.name := by
  cases e
  rw [prune]

/-- Pruning keeps the text. -/
@[simp] theorem Element.text_prune (keeps : List String → Bool) (around : List String)
    (e : Element) : (e.prune keeps around).text = e.text := by
  cases e
  rw [prune]

/-- The children are pruned at kept paths, and left out at others. -/
theorem Element.children_prune (keeps : List String → Bool) (around : List String) (e : Element) :
    (e.prune keeps around).children =
      if keeps (e.name :: around).reverse then
        e.children.map (Element.prune keeps (e.name :: around))
      else [] := by
  cases e
  rw [prune, Element.pruneAll_eq_map]

/-- An element without children is pruned already. -/
private theorem Element.prune_childless (keeps : List String → Bool) (around : List String)
    (name text : String) : (⟨name, text, []⟩ : Element).prune keeps around = ⟨name, text, []⟩ := by
  rw [prune, pruneAll]
  split <;> rfl

/-- An open element without the children that are not kept. -/
def OpenElement.prune (keeps : List String → Bool) (around : List String) (o : OpenElement) :
    OpenElement :=
  { o with
    latest :=
      if keeps (o.name :: around).reverse then
        o.latest.map (Element.prune keeps (o.name :: around))
      else [] }

/-- An open element can be pruned before it is closed or after that. -/
private theorem OpenElement.close_prune (keeps : List String → Bool) (around : List String)
    (o : OpenElement) : (o.prune keeps around).close = o.close.prune keeps around := by
  rw [close, close, Element.prune, Element.pruneAll_eq_map, prune]
  split <;> simp

/-- The open elements that are in the pruned tree. -/
def pruneOpened (keeps : List String → Bool) : List OpenElement → List OpenElement
  | [] => []
  | o :: outer =>
    if keeps (outer.map OpenElement.name).reverse then
      o.prune keeps (outer.map OpenElement.name) :: pruneOpened keeps outer
    else pruneOpened keeps outer

/-! ## Trees in step -/

namespace Tree

/-- The tree `t` is the whole tree `p`, pruned, as far as both are built. -/
structure Skips (keeps : List String → Bool) (p t : Tree) : Prop where
  opened : t.opened = pruneOpened keeps p.opened
  root : t.root? = p.root?.map (Element.prune keeps [])

variable {keeps : List String → Bool} {p t : Tree}

/-- The names of all open elements, innermost first. -/
def around (p : Tree) : List String :=
  p.opened.map OpenElement.name

/-- The two trees start out in step. -/
private theorem skips_nil (keeps : List String → Bool) : Skips keeps {} {} :=
  ⟨rfl, rfl⟩

/-- If nothing is open in the whole tree, nothing is open in the other one. -/
private theorem Skips.opened_eq_nil (h : Skips keeps p t) (whole : p.opened = []) :
    t.opened = [] := by
  rw [h.opened, whole, pruneOpened]

/-- The innermost element is open in both trees if the children of the one around it are kept. -/
private theorem Skips.opened_eq_cons (h : Skips keeps p t) {o : OpenElement}
    {outer : List OpenElement}
    (whole : p.opened = o :: outer) (kept : keeps (outer.map OpenElement.name).reverse = true) :
    t.opened = o.prune keeps (outer.map OpenElement.name) :: pruneOpened keeps outer := by
  rw [h.opened, whole, pruneOpened, if_pos kept]

/-- Problems have no part in how the trees compare. -/
private theorem Skips.note (h : Skips keeps p t) (a b : Problem) :
    Skips keeps (p.note a) (t.note b) :=
  ⟨h.opened, h.root⟩

/-- A closed element is pruned in its place. -/
private theorem Skips.attach (up : Upward keeps) (h : Skips keeps p t) (e : Element)
    (kept : keeps p.around.reverse = true) :
    Skips keeps (p.attach e) (t.attach (e.prune keeps p.around)) := by
  cases whole : p.opened with
  | nil =>
    -- The element is the root of both trees.
    have empty := h.opened_eq_nil whole
    refine ⟨?_, ?_⟩
    · simp [Tree.attach, whole, empty, pruneOpened]
    · simp [Tree.attach, whole, empty, around]
  | cons o outer =>
    rw [around, whole, List.map_cons] at kept ⊢
    -- The innermost element is in the pruned tree, as its children are kept.
    have outerKept := up.above _ _ (List.reverse_cons ▸ kept)
    have top := h.opened_eq_cons whole outerKept
    refine ⟨?_, ?_⟩
    · simp only [Tree.attach, whole, top, pruneOpened, if_pos outerKept, OpenElement.prune,
        if_pos kept, List.map_cons]
    · simp only [Tree.attach, whole, top]
      exact h.root

/-- A closed element whose children are not kept where it stands leaves the pruned tree as it
    is. -/
private theorem Skips.attach_of_passed (up : Upward keeps) (h : Skips keeps p t) (e : Element)
    (passed : keeps p.around.reverse = false) : Skips keeps (p.attach e) t := by
  cases whole : p.opened with
  | nil => simp [around, whole, up.root] at passed
  | cons o outer =>
    rw [around, whole, List.map_cons] at passed
    refine ⟨?_, ?_⟩
    · rw [h.opened]
      simp only [Tree.attach, whole, pruneOpened, OpenElement.prune, passed]
      rfl
    · simp only [Tree.attach, whole]
      exact h.root

/-- Text for the innermost element goes to both trees if that element is in both. -/
private theorem Skips.append (h : Skips keeps p t) (text : List Char)
    (kept : keeps p.around.tail.reverse = true) :
    Skips keeps (p.append text) (t.append text) := by
  cases whole : p.opened with
  | nil =>
    have empty := h.opened_eq_nil whole
    simpa [Tree.append, whole, empty] using h
  | cons o outer =>
    rw [around, whole, List.map_cons, List.tail_cons] at kept
    have top := h.opened_eq_cons whole kept
    refine ⟨?_, ?_⟩
    · simp only [Tree.append, whole, top, pruneOpened, if_pos kept, OpenElement.prune]
    · simp only [Tree.append, whole, top]
      exact h.root

/-- Text for an element that is not in the pruned tree leaves that tree as it is. -/
private theorem Skips.append_of_passed (up : Upward keeps) (h : Skips keeps p t) (text : List Char)
    (passed : keeps p.around.tail.reverse = false) : Skips keeps (p.append text) t := by
  cases whole : p.opened with
  | nil => simp [around, whole, up.root] at passed
  | cons o outer =>
    rw [around, whole, List.map_cons, List.tail_cons] at passed
    refine ⟨?_, ?_⟩
    · rw [h.opened]
      simp only [Tree.append, whole, pruneOpened, passed]
      rfl
    · simp only [Tree.append, whole]
      exact h.root

/-- Closing the innermost element closes it in both trees if it is in both. -/
private theorem Skips.closeInnermost (up : Upward keeps) (h : Skips keeps p t)
    (kept : keeps p.around.tail.reverse = true) :
    Skips keeps p.closeInnermost t.closeInnermost := by
  cases whole : p.opened with
  | nil =>
    have empty := h.opened_eq_nil whole
    simpa [Tree.closeInnermost, whole, empty] using h
  | cons o outer =>
    rw [around, whole, List.map_cons, List.tail_cons] at kept
    have top := h.opened_eq_cons whole kept
    have inner : Skips keeps { p with opened := outer }
        { t with opened := pruneOpened keeps outer } := ⟨rfl, h.root⟩
    simp only [Tree.closeInnermost, whole, top, OpenElement.close_prune]
    exact inner.attach up o.close kept

/-- Closing an element that is not in the pruned tree leaves that tree as it is. -/
private theorem Skips.closeInnermost_of_passed (up : Upward keeps) (h : Skips keeps p t)
    (passed : keeps p.around.tail.reverse = false) : Skips keeps p.closeInnermost t := by
  cases whole : p.opened with
  | nil => simp [around, whole, up.root] at passed
  | cons o outer =>
    rw [around, whole, List.map_cons, List.tail_cons] at passed
    -- The element is not among those of the pruned tree, so taking it off changes nothing there.
    have inner : Skips keeps { p with opened := outer } t := by
      refine ⟨?_, h.root⟩
      rw [h.opened, whole, pruneOpened, if_neg (by simp [passed])]
    simp only [Tree.closeInnermost, whole]
    exact inner.attach_of_passed up o.close passed

/-- How deep a tree has passed over is no part of what it holds. -/
private theorem Skips.skip (h : Skips keeps p t) (n : Nat) :
    Skips keeps p { t with skipped := n } :=
  ⟨h.opened, h.root⟩

/-! ### Events -/

variable {names : List String}

/-- If everything is kept, all open elements are in the tree. -/
theorem At.around_eq (h : p.At (fun _ => true) names) : p.around = names := by
  rw [around, h.opened, keptNames_of_isKept rfl]

/-- If everything is kept, nothing is passed over. -/
theorem At.not_pos_of_all (h : p.At (fun _ => true) names) : ¬ 0 < p.skipped := by
  rw [h.skipped_pos_iff upward_all]
  simp [isKept]

/-- A start tag keeps the two trees in step. -/
private theorem Skips.open (up : Upward keeps) (h : Skips keeps p t)
    (hp : p.At (fun _ => true) names) (ht : t.At keeps names) (name : String) :
    Skips keeps (p.advance (fun _ => true) (.opened name)) (t.advance keeps (.opened name)) := by
  have path : (p.opened.map OpenElement.name).reverse = names.reverse := by
    rw [show p.opened.map OpenElement.name = names from hp.around_eq]
  have unpruned : OpenElement.prune keeps (p.opened.map OpenElement.name) { name } = { name } := by
    simp [OpenElement.prune]
  simp only [advance, if_neg hp.not_pos_of_all, if_true]
  by_cases kept : isKept keeps (name :: names) = true
  · -- Both trees open the element.
    have outer := isKept_of_cons up kept
    have none : ¬ 0 < t.skipped := by
      rw [ht.skipped_pos_iff up]
      simp [outer]
    rw [if_neg none, ht.keeps_path outer name, if_pos kept]
    refine ⟨?_, h.root⟩
    rw [isKept, List.tail_cons] at kept
    simp only [pruneOpened, path, kept, if_true, unpruned, h.opened]
  · -- Only the whole tree does; the other one counts it.
    have passed : pruneOpened keeps ({ name } :: p.opened) = pruneOpened keeps p.opened := by
      rw [isKept, List.tail_cons] at kept
      rw [pruneOpened, path, if_neg kept]
    split
    · exact ⟨h.opened.trans passed.symm, h.root⟩
    · rename_i notPassing
      rw [ht.keeps_path (ht.isKept_of_not_pos up notPassing) name, if_neg kept]
      exact ⟨h.opened.trans passed.symm, h.root⟩

/-- An empty tag keeps the two trees in step. -/
private theorem Skips.empty (up : Upward keeps) (h : Skips keeps p t)
    (hp : p.At (fun _ => true) names) (ht : t.At keeps names) (name : String) :
    Skips keeps (p.advance (fun _ => true) (.empty name)) (t.advance keeps (.empty name)) := by
  have here : p.skipped = 0 := by
    have := hp.not_pos_of_all
    omega
  simp only [advance, here, true_and, if_true]
  by_cases kept : isKept keeps (name :: names) = true
  · -- Both trees get the childless element.
    have outer := isKept_of_cons up kept
    have none : t.skipped = 0 := by
      have := ht.skipped_pos_iff up
      rw [outer] at this
      simpa using this
    rw [if_pos ⟨none, (ht.keeps_path outer name).trans kept⟩]
    have attached := h.attach up { name } (hp.around_eq.symm ▸ kept)
    rwa [Element.prune_childless] at attached
  · -- Only the whole tree gets it.
    have stays : ¬ (t.skipped = 0 ∧ keeps t.path = true) := by
      rintro ⟨none, path⟩
      rw [ht.keeps_path (ht.isKept_of_not_pos up (by omega)) name] at path
      exact kept path
    rw [if_neg stays]
    exact h.attach_of_passed up { name } (by simpa [hp.around_eq, isKept] using kept)

/-- An end tag keeps the two trees in step. -/
private theorem Skips.close (up : Upward keeps) (h : Skips keeps p t)
    (hp : p.At (fun _ => true) names) (ht : t.At keeps names) (name : String) :
    Skips keeps (p.advance (fun _ => true) (.closed name)) (t.advance keeps (.closed name)) := by
  simp only [advance, if_neg hp.not_pos_of_all]
  split
  · rename_i passing
    have passed := (ht.skipped_pos_iff up).1 passing
    exact (h.closeInnermost_of_passed up (by rwa [hp.around_eq])).skip _
  · rename_i notPassing
    have kept := ht.isKept_of_not_pos up notPassing
    exact h.closeInnermost up (by rwa [hp.around_eq])

/-- A raw text goes to both trees if the innermost element is in both. -/
private theorem Skips.addText (h : Skips keeps p t) (same : p.opened = [] ↔ t.opened = [])
    (kept : keeps p.around.tail.reverse = true) (raw : List Char) :
    Skips keeps (p.addText raw) (t.addText raw) := by
  simp only [Tree.addText, List.isEmpty_iff, same]
  split
  · exact h
  · split
    · exact h.append _ kept
    · exact (h.append _ kept).note _ _

/-- A raw text for an element that is not in the pruned tree leaves that tree as it is. -/
private theorem Skips.addText_of_passed (up : Upward keeps) (h : Skips keeps p t)
    (passed : keeps p.around.tail.reverse = false) (raw : List Char) :
    Skips keeps (p.addText raw) t := by
  unfold Tree.addText
  split
  · exact h
  · split
    · exact h.append_of_passed up _ passed
    · exact ⟨(h.append_of_passed up _ passed).opened, (h.append_of_passed up _ passed).root⟩

/-- One event keeps the two trees in step. -/
theorem Skips.step (up : Upward keeps) (h : Skips keeps p t) (hp : p.At (fun _ => true) names)
    (ht : t.At keeps names) (e : Event) :
    Skips keeps (p.step (fun _ => true) e) (t.step keeps e) := by
  rw [hp.step_eq, ht.step_eq]
  cases e with
  | opened name => exact h.open up hp ht name
  | empty name => exact h.empty up hp ht name
  | closed name => exact h.close up hp ht name
  | aside => exact h
  | text raw =>
    simp only [advance, if_neg hp.not_pos_of_all]
    split
    · rename_i passing
      have passed := (ht.skipped_pos_iff up).1 passing
      exact h.addText_of_passed up (by rwa [hp.around_eq]) raw
    · rename_i notPassing
      have kept := ht.isKept_of_not_pos up notPassing
      -- Outside of the root both trees drop the text.
      have same : p.opened = [] ↔ t.opened = [] := by
        rw [hp.opened_eq_nil_iff upward_all, ht.opened_eq_nil_iff up]
      exact h.addText same (by rwa [hp.around_eq]) raw
  -- Data are added like texts, but for references.
  | data content =>
    simp only [advance, if_neg hp.not_pos_of_all]
    split
    · rename_i passing
      have passed := (ht.skipped_pos_iff up).1 passing
      exact h.append_of_passed up content (by rwa [hp.around_eq])
    · rename_i notPassing
      have kept := ht.isKept_of_not_pos up notPassing
      exact h.append content (by rwa [hp.around_eq])

/-- A run keeps the two trees in step: until the root is closed each event does, and then
    nothing changes. -/
private theorem Skips.foldl_step (up : Upward keeps) (h : Skips keeps p t)
    (hp : p.At (fun _ => true) names) (ht : t.At keeps names) (es : List Event) :
    Skips keeps (es.foldl (Tree.step fun _ => true) p) (es.foldl (Tree.step keeps) t) := by
  -- The place of both trees in the document is the invariant, besides how they compare.
  induction es generalizing p t names with
  | nil => exact h
  | cons e es ih =>
    have next := h.step up hp ht e
    rw [List.foldl_cons, List.foldl_cons]
    cases nest : e.nest names with
    | none =>
      rw [foldl_step_of_root (hp.root_step upward_all nest),
        foldl_step_of_root (ht.root_step up nest)]
      exact next
    | some names' => exact ih next (hp.step upward_all nest) (ht.step up nest)

/-! ### The end of the document -/

/-- Closing leaves one element less open. -/
@[simp] theorem length_opened_closeInnermost (t : Tree) :
    t.closeInnermost.opened.length = t.opened.length - 1 := by
  unfold Tree.closeInnermost
  split
  · rename_i eq
    simp [eq]
  · rename_i o outer eq
    rw [eq, List.length_cons, Nat.add_sub_cancel]
    unfold Tree.attach
    split
    · rename_i empty
      rw [show outer = [] from empty]
    · rename_i next outer' eq'
      rw [show outer = next :: outer' from eq']
      rfl

/-- A problem can be recorded before an element is closed or after that. -/
private theorem closeInnermost_note (t : Tree) (a : Problem) :
    (t.note a).closeInnermost = t.closeInnermost.note a := by
  obtain ⟨opened, skipped, root, latest⟩ := t
  match opened with
  | [] => rfl
  | [_] => rfl
  | _ :: _ :: _ => rfl

/-- A problem can be recorded before elements are closed or after that. -/
private theorem closeMany_note (t : Tree) (a : Problem) (n : Nat) :
    (t.note a).closeMany n = (t.closeMany n).note a := by
  induction n generalizing t with
  | zero => rfl
  | succ n ih => rw [closeMany, closeMany, closeInnermost_note, ih]

/-- At the end of a document all that is open is closed. -/
theorem root_finish (h : t.root? = none) (ending : Ending) :
    (t.finish ending).root? = (t.closeMany t.opened.length).root? := by
  unfold finish
  rw [h]
  simp only [Option.isSome_none, Bool.false_eq_true, if_false]
  -- A problem may be recorded first, which has no part in the root.
  cases ending with
  | broken position fault =>
    simp only [closeMany_note]
    rfl
  | finished =>
    simp only
    split
    · rfl
    · rw [closeMany_note]
      rfl

/-- Closing all that is open keeps the two trees in step. -/
private theorem Skips.closeMany (up : Upward keeps) (h : Skips keeps p t) :
    Skips keeps (p.closeMany p.opened.length) (t.closeMany t.opened.length) := by
  -- Induction on what is open in the whole tree: the other one closes only what it has kept.
  generalize count : p.opened.length = n
  induction n generalizing p t with
  | zero =>
    have whole : p.opened = [] := List.length_eq_zero_iff.1 count
    have empty := h.opened_eq_nil whole
    rw [empty]
    exact h
  | succ n ih =>
    have fewer : p.closeInnermost.opened.length = n := by
      rw [length_opened_closeInnermost, count, Nat.add_sub_cancel]
    rw [Tree.closeMany]
    by_cases kept : keeps p.around.tail.reverse = true
    · -- The element that is closed is open in the pruned tree as well.
      have nonempty : t.opened.length = t.closeInnermost.opened.length + 1 := by
        obtain ⟨o, outer, whole⟩ := List.exists_cons_of_length_eq_add_one count
        rw [around, whole, List.map_cons, List.tail_cons] at kept
        rw [length_opened_closeInnermost, h.opened_eq_cons whole kept]
        rfl
      rw [nonempty, Tree.closeMany]
      exact ih (h.closeInnermost up kept) fewer
    · exact ih (h.closeInnermost_of_passed up (by simpa using kept)) fewer

/-- The tree of a document is the whole tree, pruned. -/
theorem root_ofScan (up : Upward keeps) (s : Scan) :
    (ofScan keeps s).root? = (ofScan (fun _ => true) s).root?.map (Element.prune keeps []) := by
  have skips := (skips_nil keeps).foldl_step up (at_nil _) (at_nil _) s.events
  rw [ofScan, ofScan]
  -- The root is closed in both trees, or in neither.
  cases inside : openNames [] s.events with
  | none =>
    rw [finish_of_root ((at_nil _).root_foldl_step up inside),
      finish_of_root ((at_nil _).root_foldl_step upward_all inside)]
    exact skips.root
  | some names =>
    rw [root_finish ((at_nil _).foldl_step up inside).root,
      root_finish ((at_nil _).foldl_step upward_all inside).root]
    exact (skips.closeMany up).root

end Tree

end ProjectFile
