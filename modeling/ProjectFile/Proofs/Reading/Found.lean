import ProjectFile.Proofs.Markup.Nesting
import ProjectFile.Reading.Tree

/-!
# Problems found while the tree is built

While the tree of a document is built, some elements are kept and others are passed over.  At each
place the kept ones are the outer part of the open elements: `keptNames`.  So what is open in the
tree, how deep it has passed over, and which problems it has recorded are functions of the events
before that place.

All of it is stated for any choice of kept paths that keeps the root and, with a path, the paths
above it (`Upward`): `keepsChildren` is one, and keeping everything is another.

## Key results

- `At.step`, `At.foldl_step`: the tree after one event, and after some events
- `problems_ofScan`: the problems of the tree of a document
-/

namespace ProjectFile

open ProjectFile.Markup

/-- A choice of kept paths that holds the path of the document, and all paths above each of its
    paths. -/
structure Upward (keeps : List String → Bool) : Prop where
  root : keeps [] = true
  above : ∀ path name, keeps (path ++ [name]) = true → keeps path = true

/-- Everything can be kept. -/
theorem upward_all : Upward fun _ => true :=
  ⟨rfl, fun _ _ _ => rfl⟩

/-- The paths that are kept for a description hold all paths above each of them. -/
theorem upward_keepsChildren : Upward keepsChildren where
  root := rfl
  above := by
    intro path name h
    -- There are only a few kept paths: each of them is looked at.
    have above : ∀ p ∈ keptPaths, keepsChildren p.dropLast = true := by decide
    simpa using above _ (List.contains_iff_mem.1 h)

/-! ## Names of kept elements -/

/-- Whether the innermost one of the open elements is in the tree: the children of the element
    around it are kept. -/
def isKept (keeps : List String → Bool) (names : List String) : Bool :=
  keeps names.tail.reverse

/-- The names of those open elements that are in the tree, innermost first. -/
def keptNames (keeps : List String → Bool) : List String → List String
  | [] => []
  | name :: outer => if isKept keeps (name :: outer) then name :: outer else keptNames keeps outer

/-- If the innermost element is kept, all of them are. -/
theorem keptNames_of_isKept {keeps : List String → Bool} {names : List String}
    (h : isKept keeps names = true) : keptNames keeps names = names := by
  cases names with
  | nil => rfl
  | cons name outer => rw [keptNames, if_pos h]

/-- No more elements are kept than are open. -/
private theorem length_keptNames_le (keeps : List String → Bool) (names : List String) :
    (keptNames keeps names).length ≤ names.length := by
  induction names with
  | nil => simp [keptNames]
  | cons name outer ih =>
    rw [keptNames]
    split
    · omega
    · simp only [List.length_cons]
      omega

/-- Something is passed over exactly if the innermost element is. -/
private theorem length_keptNames_lt_iff {keeps : List String → Bool} (up : Upward keeps)
    (names : List String) :
    (keptNames keeps names).length < names.length ↔ isKept keeps names = false := by
  cases names with
  | nil => simp [keptNames, isKept, up.root]
  | cons name outer =>
    rw [keptNames]
    split
    · rename_i kept
      simp [kept]
    · rename_i passed
      have := length_keptNames_le keeps outer
      simp only [List.length_cons, Bool.not_eq_true] at passed ⊢
      simp only [passed, iff_true]
      omega

/-- The children of an element inside one that is passed over are passed over. -/
private theorem isKept_cons_of_passed {keeps : List String → Bool} (up : Upward keeps)
    {names : List String} (h : isKept keeps names = false) (name : String) :
    isKept keeps (name :: names) = false := by
  cases names with
  | nil => simp [isKept, up.root] at h
  | cons next outer =>
    by_cases kept : isKept keeps (name :: next :: outer) = true
    · -- If it was kept, the path above would hold its children as well.
      have above := up.above outer.reverse next (by simpa [isKept] using kept)
      rw [isKept, List.tail_cons, above] at h
      simp at h
    · simpa using kept

/-- Nothing inside of an element that is passed over is kept. -/
private theorem keptNames_cons_of_passed {keeps : List String → Bool} (up : Upward keeps)
    {names : List String} (h : isKept keeps names = false) (name : String) :
    keptNames keeps (name :: names) = keptNames keeps names := by
  rw [keptNames, if_neg (by simp [isKept_cons_of_passed up h name])]

/-- An element around one that is kept is kept. -/
theorem isKept_of_cons {keeps : List String → Bool} (up : Upward keeps) {names : List String}
    {name : String} (h : isKept keeps (name :: names) = true) : isKept keeps names = true := by
  by_cases kept : isKept keeps names = true
  · exact kept
  · rw [isKept_cons_of_passed up (by simpa using kept) name] at h
    simp at h

/-- If an element is open, one is kept, as the root always is. -/
private theorem keptNames_ne_nil {keeps : List String → Bool} (up : Upward keeps)
    {names : List String} (h : names ≠ []) : keptNames keeps names ≠ [] := by
  induction names with
  | nil => exact absurd rfl h
  | cons name outer ih =>
    rw [keptNames]
    split
    · simp
    · rename_i passed
      cases outer with
      | nil => simp [isKept, up.root] at passed
      | cons next outer => exact ih (by simp)

/-- The problem of a text that cannot be resolved: it names the element around the text. -/
def textProblem (found : List String × ReferenceFault) : Problem :=
  .unresolvedText (found.1.headD "") found.2

/-- The problems of those texts that are in the tree. -/
def textProblems (keeps : List String → Bool) (texts : List (List String × ReferenceFault)) :
    List Problem :=
  (texts.filter fun found => isKept keeps found.1).map textProblem

/-- The problem of a document that ends inside of the root, where `element` is open. -/
def endProblem (element : String) : Ending → Problem
  | .broken position fault => .malformed element position fault
  | .finished => .unclosed element

/-- The problems of how a document ends with the elements in `names?` open: none once the root is
    closed, and none at the end of a document without a root. -/
def endProblems (innermost : List String → String) : Option (List String) → Ending → List Problem
  | none, _ => []
  | some [], .finished => []
  | some names, ending => [endProblem (innermost names) ending]

/-- The name of the innermost open element that is in the tree, or nothing outside of the root. -/
def innermostKept (keeps : List String → Bool) (names : List String) : String :=
  (keptNames keeps names).headD ""

/-! ## The tree at a place -/

namespace Tree

/-- A tree under construction is at a place where the elements named by `names` are open, and the
    root is not closed. -/
structure At (keeps : List String → Bool) (names : List String) (t : Tree) : Prop where
  opened : t.opened.map OpenElement.name = keptNames keeps names
  skipped : t.skipped + (keptNames keeps names).length = names.length
  root : t.root? = none

variable {keeps : List String → Bool} {names : List String} {t : Tree}

/-- A tree starts where nothing is open. -/
theorem at_nil (keeps : List String → Bool) : At keeps [] {} :=
  ⟨rfl, rfl, rfl⟩

/-- Something is passed over exactly if the innermost element is not kept. -/
theorem At.skipped_pos_iff (up : Upward keeps) (h : t.At keeps names) :
    0 < t.skipped ↔ isKept keeps names = false := by
  have := h.skipped
  rw [← length_keptNames_lt_iff up]
  omega

/-- If nothing is passed over, the innermost element is kept. -/
theorem At.isKept_of_not_pos (up : Upward keeps) (h : t.At keeps names) (none : ¬ 0 < t.skipped) :
    isKept keeps names = true := by
  rw [h.skipped_pos_iff up] at none
  simpa using none

/-- If the innermost element is kept, the path in the tree is the one in the document. -/
theorem At.path_eq (h : t.At keeps names) (kept : isKept keeps names = true) :
    t.path = names.reverse := by
  rw [path, h.opened, keptNames_of_isKept kept]

/-- Whether the children of the innermost open element are kept. -/
theorem At.keeps_path (h : t.At keeps names) (kept : isKept keeps names = true) (name : String) :
    keeps t.path = isKept keeps (name :: names) := by
  rw [h.path_eq kept, isKept, List.tail_cons]

/-- The innermost element of the tree is the innermost one that is kept. -/
private theorem At.innermost_eq (h : t.At keeps names) :
    t.innermost = innermostKept keeps names := by
  rw [innermostKept, ← h.opened, innermost]
  cases t.opened <;> rfl

/-- Nothing is open in the tree exactly if nothing is open in the document. -/
theorem At.opened_eq_nil_iff (up : Upward keeps) (h : t.At keeps names) :
    t.opened = [] ↔ names = [] := by
  constructor
  · intro empty
    cases names with
    | nil => rfl
    | cons name outer =>
      have := h.opened
      rw [empty] at this
      exact absurd this.symm (keptNames_ne_nil up (by simp))
  · rintro rfl
    simpa [keptNames] using h.opened

/-- If an element is open in the document, one is open in the tree. -/
private theorem At.isEmpty_opened (up : Upward keeps) {name : String}
    (h : t.At keeps (name :: names)) : t.opened.isEmpty = false := by
  rw [List.isEmpty_eq_false_iff]
  intro empty
  simpa using (h.opened_eq_nil_iff up).1 empty

/-- While the root is not closed, every event counts. -/
theorem At.step_eq (h : t.At keeps names) (e : Event) : t.step keeps e = t.advance keeps e := by
  rw [Tree.step, h.root]
  rfl

/-- Nothing that only changes the innermost open element changes the place. -/
private theorem At.modify (h : t.At keeps names) {t' : Tree}
    (opened : t'.opened.map OpenElement.name = t.opened.map OpenElement.name)
    (skipped : t'.skipped = t.skipped) (root : t'.root? = t.root?) : t'.At keeps names :=
  ⟨opened.trans h.opened, skipped ▸ h.skipped, root.trans h.root⟩

/-- Recording a problem leaves the place as it is. -/
private theorem At.note (h : t.At keeps names) (p : Problem) : (t.note p).At keeps names :=
  h.modify rfl rfl rfl

/-- Adding a text leaves the place as it is. -/
private theorem At.append (h : t.At keeps names) (text : List Char) :
    (t.append text).At keeps names := by
  unfold Tree.append
  split
  · exact h
  · rename_i o outer eq
    exact h.modify (by simp [eq]) rfl rfl

/-- Adding a raw text leaves the place as it is. -/
private theorem At.addText (h : t.At keeps names) (raw : List Char) :
    (t.addText raw).At keeps names := by
  unfold Tree.addText
  split
  · exact h
  · split
    · exact h.append _
    · exact (h.append _).note _

/-- Attaching an element to an open one leaves the place as it is. -/
private theorem At.attach (h : t.At keeps names) (e : Element) (nonempty : t.opened ≠ []) :
    (t.attach e).At keeps names := by
  unfold Tree.attach
  split
  · rename_i eq
    exact absurd eq nonempty
  · rename_i o outer eq
    exact h.modify (by simp [eq]) rfl rfl

/-- A start tag leads into the element, whether that is kept or passed over. -/
private theorem At.open (up : Upward keeps) (h : t.At keeps names) (name : String) :
    (t.advance keeps (.opened name)).At keeps (name :: names) := by
  simp only [advance]
  split
  · -- What is inside of an element that is passed over is passed over.
    rename_i passing
    have passed := (h.skipped_pos_iff up).1 passing
    have same := keptNames_cons_of_passed up passed name
    refine ⟨same ▸ h.opened, ?_, h.root⟩
    have := h.skipped
    simp only [same, List.length_cons]
    omega
  · rename_i notPassing
    have kept := h.isKept_of_not_pos up notPassing
    have none : t.skipped = 0 := by omega
    rw [h.keeps_path kept name]
    split
    · rename_i inside
      refine ⟨?_, ?_, h.root⟩
      · rw [List.map_cons, h.opened, keptNames_of_isKept kept, keptNames_of_isKept inside]
      · simp [keptNames_of_isKept inside, none]
    · -- Passing over starts here: the children of the innermost element are not kept.
      rename_i outside
      have same : keptNames keeps (name :: names) = names := by
        rw [keptNames, if_neg outside, keptNames_of_isKept kept]
      refine ⟨?_, ?_, h.root⟩
      · rw [same, h.opened, keptNames_of_isKept kept]
      · simp only [same, List.length_cons]
        omega

/-- An end tag leads out of the innermost element, whether that is kept or passed over. -/
private theorem At.close (up : Upward keeps) {name next : String}
    (h : t.At keeps (name :: next :: names)) (closed : String) :
    (t.advance keeps (.closed closed)).At keeps (next :: names) := by
  simp only [advance]
  split
  · -- The innermost element is passed over, and no kept one is closed.
    rename_i passing
    have passed := (h.skipped_pos_iff up).1 passing
    have same : keptNames keeps (name :: next :: names) = keptNames keeps (next :: names) := by
      rw [keptNames, if_neg (by simp [passed])]
    refine ⟨same ▸ h.opened, ?_, h.root⟩
    have := h.skipped
    rw [same] at this
    simp only [List.length_cons] at this ⊢
    omega
  · rename_i notPassing
    have kept := h.isKept_of_not_pos up notPassing
    have outerKept := isKept_of_cons up kept
    have names_eq := h.opened
    have none := h.skipped
    rw [keptNames_of_isKept kept] at names_eq none
    unfold closeInnermost
    split
    · rename_i eq
      simp [eq] at names_eq
    · rename_i o outer eq
      rw [eq, List.map_cons, List.cons.injEq] at names_eq
      -- Once the innermost element is taken off, it is attached to the one around it.
      have inner : ({ t with opened := outer } : Tree).At keeps (next :: names) := by
        refine ⟨?_, ?_, h.root⟩
        · rw [keptNames_of_isKept outerKept]
          exact names_eq.2
        · rw [keptNames_of_isKept outerKept]
          simp only [List.length_cons] at none ⊢
          omega
      refine inner.attach _ fun empty => ?_
      have := names_eq.2
      rw [show outer = [] from empty] at this
      simp at this

/-- An event that leaves the root open leads to the place after it. -/
theorem At.step (up : Upward keeps) (h : t.At keeps names) {e : Event} {names' : List String}
    (nest : e.nest names = some names') : (t.step keeps e).At keeps names' := by
  rw [h.step_eq]
  cases e with
  | opened name =>
    simp only [Event.nest, Option.some.injEq] at nest
    exact nest ▸ h.open up name
  | closed name =>
    cases names with
    | nil =>
      simp only [Event.nest, Option.some.injEq] at nest
      have empty := (h.opened_eq_nil_iff up).2 rfl
      -- Outside of the root there is nothing to close.
      have same : t.advance keeps (.closed name) = t := by
        have := h.skipped
        simp only [keptNames, List.length_nil] at this
        simp [advance, closeInnermost, empty, show ¬ 0 < t.skipped by omega]
      rw [same, ← nest]
      exact h
    | cons innermost outer =>
      cases outer with
      | nil => simp [Event.nest] at nest
      | cons next outer =>
        simp only [Event.nest, Option.some.injEq] at nest
        exact nest ▸ h.close up name
  -- An empty tag leaves the place as it is, with a child or without one.
  | empty name =>
    cases names with
    | nil => simp [Event.nest] at nest
    | cons innermost outer =>
      simp only [Event.nest, Option.some.injEq] at nest
      subst nest
      simp only [advance]
      split
      · exact h.attach _ fun eq => by simpa using (h.opened_eq_nil_iff up).1 eq
      · exact h
  -- Texts of either kind leave the place as it is.
  | text raw =>
    simp only [Event.nest, Option.some.injEq] at nest
    subst nest
    simp only [advance]
    split
    · exact h
    · exact h.addText raw
  | data content =>
    simp only [Event.nest, Option.some.injEq] at nest
    subst nest
    simp only [advance]
    split
    · exact h
    · exact h.append content
  | aside =>
    simp only [Event.nest, Option.some.injEq] at nest
    exact nest ▸ h

/-- An event that closes the root gives the tree its root. -/
theorem At.root_step (up : Upward keeps) (h : t.At keeps names) {e : Event}
    (nest : e.nest names = none) : (t.step keeps e).root?.isSome = true := by
  rw [h.step_eq]
  -- The root is an empty element, or the end tag is that of the only open one.
  cases e with
  | empty name =>
    cases names with
    | cons innermost outer => simp [Event.nest] at nest
    | nil =>
      have none : t.skipped = 0 := by simpa [keptNames] using h.skipped
      have empty := (h.opened_eq_nil_iff up).2 rfl
      simp [advance, none, path, empty, up.root, Tree.attach]
  | closed name =>
    cases names with
    | nil => simp [Event.nest] at nest
    | cons innermost outer =>
      cases outer with
      | cons next outer => simp [Event.nest] at nest
      | nil =>
        have same : keptNames keeps [innermost] = [innermost] :=
          keptNames_of_isKept (by simp [isKept, up.root])
        have none := h.skipped
        have opened := h.opened
        rw [same] at none opened
        -- The only element that is open in the document is open in the tree.
        obtain ⟨o, outer, eq⟩ := List.exists_cons_of_ne_nil (l := t.opened) (by
          intro eq
          simp [eq] at opened)
        rw [eq, List.map_cons, List.cons.injEq, List.map_eq_nil_iff] at opened
        simp only [List.length_cons, List.length_nil] at none
        simp [advance, show ¬ 0 < t.skipped by omega, closeInnermost, eq, opened.2, Tree.attach]
  | _ => simp [Event.nest] at nest

/-! ## Problems -/

/-- Adding a text records nothing. -/
@[simp] theorem latest_append (t : Tree) (text : List Char) :
    (t.append text).latest = t.latest := by
  unfold Tree.append
  split <;> rfl

/-- Attaching an element records nothing. -/
@[simp] theorem latest_attach (t : Tree) (e : Element) : (t.attach e).latest = t.latest := by
  unfold Tree.attach
  split <;> rfl

/-- Closing an element records nothing. -/
@[simp] theorem latest_closeInnermost (t : Tree) : t.closeInnermost.latest = t.latest := by
  unfold closeInnermost
  split
  · rfl
  · rw [latest_attach]

/-- Closing elements records nothing. -/
@[simp] theorem latest_closeMany (t : Tree) (n : Nat) : (t.closeMany n).latest = t.latest := by
  induction n generalizing t with
  | zero => rfl
  | succ n ih => rw [closeMany, ih, latest_closeInnermost]

/-- A text is recorded if it cannot be resolved and is in the tree. -/
private theorem At.latest_step (up : Upward keeps) (h : t.At keeps names) (e : Event) :
    (t.step keeps e).latest = textProblems keeps (e.textFault? names).toList ++ t.latest := by
  rw [h.step_eq]
  -- Of all events only a text can record something.
  cases e with
  | opened name =>
    simp only [advance]
    split
    · rfl
    · split <;> rfl
  | closed name =>
    simp only [advance]
    split
    · rfl
    · exact latest_closeInnermost t
  | empty name =>
    simp only [advance]
    split
    · exact latest_attach t _
    · rfl
  | data content =>
    simp only [advance]
    split
    · rfl
    · exact latest_append t content
  | aside => rfl
  | text raw =>
    simp only [advance]
    split
    · -- The text is passed over, and its fault is not one of those in the tree.
      rename_i passing
      have passed := (h.skipped_pos_iff up).1 passing
      cases fault : Event.textFault? names (.text raw) with
      | none => rfl
      | some found =>
        have around : found.1 = names := by
          cases names with
          | nil => simp [Event.textFault?] at fault
          | cons name outer =>
            cases resolved : resolve raw with
            | ok text => simp [Event.textFault?, resolved] at fault
            | error f =>
              simp only [Event.textFault?, resolved, Option.some.injEq] at fault
              rw [← fault]
        simp [textProblems, around, passed]
    · rename_i notPassing
      have kept := h.isKept_of_not_pos up notPassing
      cases names with
      | nil =>
        -- No text counts outside of the root.
        have empty := (h.opened_eq_nil_iff up).2 rfl
        simp [Tree.addText, empty, Event.textFault?, textProblems]
      | cons name outer =>
        have element : t.innermost = name := by
          rw [h.innermost_eq, innermostKept, keptNames_of_isKept kept, List.headD_cons]
        rw [Tree.addText, h.isEmpty_opened up]
        cases resolved : resolve raw with
        | ok text => simp [Event.textFault?, resolved, textProblems]
        | error fault =>
          simp [Event.textFault?, resolved, textProblems, kept, Tree.note, element, textProblem]

/-! ## Runs -/

/-- Once there is a root, no event changes the tree. -/
theorem foldl_step_of_root (h : t.root?.isSome = true) (es : List Event) :
    es.foldl (Tree.step keeps) t = t := by
  induction es with
  | nil => rfl
  | cons e es ih => rw [List.foldl_cons, Tree.step, if_pos h, ih]

/-- While the root is open, a run leads to the place after its events. -/
theorem At.foldl_step (up : Upward keeps) (h : t.At keeps names) {es : List Event}
    {names' : List String} (inside : openNames names es = some names') :
    (es.foldl (Tree.step keeps) t).At keeps names' := by
  induction es generalizing t names with
  | nil =>
    simp only [openNames_nil, Option.some.injEq] at inside
    exact inside ▸ h
  | cons e es ih =>
    rw [openNames_cons] at inside
    obtain ⟨next, nest, inside⟩ := Option.bind_eq_some_iff.1 inside
    exact ih (h.step up nest) inside

/-- A run whose events close the root gives the tree its root. -/
theorem At.root_foldl_step (up : Upward keeps) (h : t.At keeps names) {es : List Event}
    (closes : openNames names es = none) :
    (es.foldl (Tree.step keeps) t).root?.isSome = true := by
  -- The names that are open change along the events, up to the one that closes the root.
  induction es generalizing t names with
  | nil => simp at closes
  | cons e es ih =>
    rw [List.foldl_cons]
    cases nest : e.nest names with
    | none =>
      have root := h.root_step up nest
      rw [foldl_step_of_root root]
      exact root
    | some next =>
      rw [openNames_cons, nest, Option.bind_some] at closes
      exact ih (h.step up nest) closes

/-- A run records the texts of its events that cannot be resolved and are in the tree. -/
theorem At.latest_foldl_step (up : Upward keeps) (h : t.At keeps names) (es : List Event) :
    (es.foldl (Tree.step keeps) t).latest =
      (textProblems keeps (unresolvedTexts names es)).reverse ++ t.latest := by
  -- Problems are recorded latest first, so those of the first event end up behind the others.
  induction es generalizing t names with
  | nil => rfl
  | cons e es ih =>
    -- An event has one problem at the most, so it does not matter which end is first.
    have one : (textProblems keeps (e.textFault? names).toList).reverse =
        textProblems keeps (e.textFault? names).toList := by
      cases e.textFault? names with
      | none => rfl
      | some found =>
        by_cases kept : isKept keeps found.1 = true
        · simp [textProblems, kept]
        · simp [textProblems, kept]
    have split : ∀ texts texts', textProblems keeps (texts ++ texts') =
        textProblems keeps texts ++ textProblems keeps texts' := by
      intro texts texts'
      simp [textProblems]
    rw [List.foldl_cons, unresolvedTexts, split, List.reverse_append, one, List.append_assoc,
      ← h.latest_step up e]
    cases nest : e.nest names with
    | none => rw [foldl_step_of_root (h.root_step up nest)]; rfl
    | some next => exact ih (h.step up nest)

/-! ## The end of the document -/

/-- Once there is a root, the end of the document changes nothing. -/
theorem finish_of_root (h : t.root?.isSome = true) (ending : Ending) : t.finish ending = t := by
  unfold finish
  rw [if_pos h]

/-- The end of a document records how it ends, if that is inside of the root or broken. -/
private theorem At.latest_finish (up : Upward keeps) (h : t.At keeps names) (ending : Ending) :
    (t.finish ending).latest =
      endProblems (innermostKept keeps) (some names) ending ++ t.latest := by
  unfold finish
  rw [h.root]
  simp only [Option.isSome_none, Bool.false_eq_true, if_false, latest_closeMany]
  -- Elements that are closed at the end record nothing.
  cases ending with
  | broken position fault => simp [endProblems, endProblem, Tree.note, h.innermost_eq]
  | finished =>
    cases names with
    | nil => simp [(h.opened_eq_nil_iff up).2 rfl, endProblems]
    | cons name outer =>
      simp [h.isEmpty_opened up, endProblems, endProblem, Tree.note, h.innermost_eq]

/-- The problems of the tree of a document: the texts in the tree that cannot be resolved, and
    then how the document ends. -/
theorem problems_ofScan (up : Upward keeps) (s : Scan) :
    (ofScan keeps s).problems =
      textProblems keeps (unresolvedTexts [] s.events) ++
        endProblems (innermostKept keeps) (openNames [] s.events) s.ending := by
  have start := at_nil keeps
  have texts := start.latest_foldl_step up s.events
  rw [problems, ofScan]
  cases inside : openNames [] s.events with
  | none =>
    -- The root is closed, and the end of the document is not looked at.
    rw [finish_of_root (start.root_foldl_step up inside), texts]
    simp [endProblems]
  | some names =>
    rw [(start.foldl_step up inside).latest_finish up, texts]
    -- There is one problem of the end at the most.
    have one : (endProblems (innermostKept keeps) (some names) s.ending).reverse =
        endProblems (innermostKept keeps) (some names) s.ending := by
      unfold endProblems
      split <;> rfl
    simp [one]

end Tree

end ProjectFile
