import ProjectFile.Proofs.Markup.CutOff
import ProjectFile.Proofs.Reading.Pruning

/-!
# How deep the tree grows

While a tree is built, each element of the document that is not closed yet is either open in the
tree, or counted as one that is passed over, so an end tag closes the element that it names
(`Tree.InStep`).  What is passed over is inside of an element whose children are not kept.

No kept path is longer than five names, so no more than six elements are ever open in the tree,
and the tree is never higher than that, however deep the document is.

## Key results

- `Element.height_prune_le`: pruning leaves no more than the kept paths have
- `Tree.inStep_of_events`: the tree is in step with the document behind each event, and is low at
  the end
-/

namespace ProjectFile

open ProjectFile.Markup

/-! ## Heights -/

mutual

/-- How many elements are inside of each other, at the most. -/
def Element.height : Element → Nat
  | ⟨_, _, children⟩ => Element.heights children + 1

/-- The greatest height of some elements. -/
def Element.heights : List Element → Nat
  | [] => 0
  | e :: es => max e.height (Element.heights es)

end

mutual

/-- A pruned element has no children below the longest of the kept paths. -/
theorem Element.height_prune_le {keeps : List String → Bool} {n : Nat}
    (bound : ∀ path, keeps path = true → path.length ≤ n) {around : List String}
    (short : around.length ≤ n) (e : Element) :
    (e.prune keeps around).height + around.length ≤ n + 1 := by
  match e with
  | ⟨name, text, children⟩ =>
    rw [Element.prune, Element.height]
    split
    · rename_i kept
      -- The path of an element with children is kept, so it is within the bound.
      have longer : (name :: around).length ≤ n := List.length_reverse ▸ bound _ kept
      have inner := Element.heights_pruneAll_le bound longer children
      rw [List.length_cons] at inner
      omega
    · rw [Element.heights]
      omega

/-- None of some pruned elements has children below the longest of the kept paths. -/
theorem Element.heights_pruneAll_le {keeps : List String → Bool} {n : Nat}
    (bound : ∀ path, keeps path = true → path.length ≤ n) {around : List String}
    (short : around.length ≤ n) (es : List Element) :
    Element.heights (Element.pruneAll keeps around es) + around.length ≤ n + 1 := by
  match es with
  | [] =>
    rw [Element.pruneAll, Element.heights]
    omega
  | e :: es =>
    have first := Element.height_prune_le bound short e
    have others := Element.heights_pruneAll_le bound short es
    rw [Element.pruneAll, Element.heights]
    omega

end

/-- No path to an element whose children are kept has more than five names. -/
private theorem length_le_of_keepsChildren {path : List String} (h : keepsChildren path = true) :
    path.length ≤ 5 := by
  have short : ∀ p ∈ keptPaths, p.length ≤ 5 := by decide
  exact short path (List.contains_iff_mem.1 h)

/-! ## Names of kept elements -/

/-- The children of the element around the innermost kept one are kept. -/
private theorem isKept_keptNames {keeps : List String → Bool} (up : Upward keeps)
    (names : List String) : isKept keeps (keptNames keeps names) = true := by
  induction names with
  | nil => exact up.root
  | cons name outer ih =>
    rw [keptNames]
    split
    · assumption
    · exact ih

/-- If the innermost element is passed over, the children of the innermost kept one are not
    kept. -/
private theorem keeps_keptNames_of_passed {keeps : List String → Bool} (up : Upward keeps)
    {names : List String} (h : isKept keeps names = false) :
    keeps (keptNames keeps names).reverse = false := by
  induction names with
  | nil => simp [isKept, up.root] at h
  | cons name outer ih =>
    rw [keptNames, if_neg (by simp [h])]
    by_cases kept : isKept keeps outer = true
    · -- Passing over starts with the innermost element.
      rw [keptNames_of_isKept kept]
      simpa [isKept] using h
    · exact ih (by simpa using kept)

namespace Tree

/-! ## The tree and the document -/

/-- A tree under construction is in step with its document: what is left of the document is `rest`,
    and `unclosed` are the names of the elements that are not closed before it, innermost
    first. -/
structure InStep (unclosed : List (List Char)) (rest : List Char) (t : Tree) : Prop where
  /-- Each unclosed element is open in the tree, or counted as passed over. -/
  count : t.opened.length + t.skipped = unclosed.length
  /-- What is passed over is inside of an element whose children are not kept. -/
  passing : 0 < t.skipped → t.opened ≠ [] ∧ keepsChildren t.path = false
  /-- The children of the element around the innermost one are kept. -/
  around : t.opened ≠ [] → keepsChildren t.path.dropLast = true
  low : t.opened.length ≤ 6
  /-- An end tag where nothing is passed over closes the open element that it names. -/
  closes : ∀ name unclosed' rest',
    nextEvent unclosed rest = .event (.closed name) unclosed' rest' → t.skipped = 0 →
      ∃ o outer, t.opened = o :: outer ∧ o.name = name ∧
        t.step keepsChildren (.closed name) = { t with opened := outer }.attach o.close

variable {keeps : List String → Bool} {names : List String} {t : Tree}

/-- Each unclosed element is open in the tree or passed over. -/
private theorem At.count (h : t.At keeps names) : t.opened.length + t.skipped = names.length := by
  have kept := congrArg List.length h.opened
  rw [List.length_map] at kept
  have := h.skipped
  omega

/-- The open elements of the tree are the kept ones of the document. -/
private theorem At.path_eq_keptNames (h : t.At keeps names) :
    t.path = (keptNames keeps names).reverse := by
  rw [path, h.opened]

/-- At a path whose children are not kept, some element is open, as the root is always kept. -/
private theorem opened_ne_nil_of_path (up : Upward keeps) (h : keeps t.path = false) :
    t.opened ≠ [] := by
  intro empty
  rw [path, empty, List.map_nil, List.reverse_nil, up.root] at h
  simp at h

/-- The children of the element around the innermost one are kept. -/
private theorem At.keeps_dropLast_path (up : Upward keeps) (h : t.At keeps names) :
    keeps t.path.dropLast = true := by
  rw [h.path_eq_keptNames, List.dropLast_reverse]
  exact isKept_keptNames up names

/-- Where nothing is passed over, an end tag closes the innermost element. -/
private theorem At.step_closed (up : Upward keeps) {name : String} (h : t.At keeps (name :: names))
    (none : t.skipped = 0) :
    ∃ o outer, t.opened = o :: outer ∧ o.name = name ∧
      t.step keeps (.closed name) = { t with opened := outer }.attach o.close := by
  have kept := h.isKept_of_not_pos up (by omega)
  have opened := h.opened
  rw [keptNames_of_isKept kept] at opened
  obtain ⟨o, outer, split, named, -⟩ := List.map_eq_cons_iff.1 opened
  refine ⟨o, outer, split, named, ?_⟩
  rw [h.step_eq]
  simp only [advance, none, Nat.lt_irrefl, if_false, closeInnermost, split]

/-- A tree that has come as far as its document is in step with it. -/
private theorem At.inStep {unclosed : List (List Char)} {rest : List Char}
    (h : t.At keepsChildren (unclosed.map localName)) : t.InStep unclosed rest where
  count := by simpa using h.count
  passing := by
    intro passing
    have passed := (h.skipped_pos_iff upward_keepsChildren).1 passing
    have path : keepsChildren t.path = false :=
      h.path_eq_keptNames ▸ keeps_keptNames_of_passed upward_keepsChildren passed
    exact ⟨opened_ne_nil_of_path upward_keepsChildren path, path⟩
  around := fun _ => h.keeps_dropLast_path upward_keepsChildren
  low := by
    -- The path without its last name is kept, so all of it is at most one name longer than the
    -- bound.
    have short := length_le_of_keepsChildren (h.keeps_dropLast_path upward_keepsChildren)
    rw [List.length_dropLast, path, List.length_reverse, List.length_map] at short
    omega
  closes := by
    intro name unclosed' rest' next none
    obtain ⟨token, -, event⟩ := exists_token_of_event next
    -- The end tag is that of the innermost unclosed element.
    cases eventOfToken_eq_ok_iff.1 event with
    | closeTag _ raw => exact At.step_closed upward_keepsChildren h none

/-! ## Runs -/

/-- Behind each event before the end of the root, the tree is in step with the document.  The tree
    of the whole document is at most six elements high. -/
theorem inStep_of_events (content : List Char) :
    (∀ es, es <+: (scan content).events → (es.foldl (step keepsChildren) {}).root? = none →
      ∃ unclosed rest, Reads [] (dropMark content) es unclosed rest ∧
        (es.foldl (step keepsChildren) {}).InStep unclosed rest) ∧
    ∀ root, (ofScan keepsChildren (scan content)).root? = some root → root.height ≤ 6 := by
  constructor
  · rintro es ⟨later, split⟩ root
    have all := reads_stop content
    rw [← split] at all
    obtain ⟨unclosed, rest, reads, -⟩ := all.split
    refine ⟨unclosed, rest, reads, ?_⟩
    -- The root is not closed, so the names that are open are those of the unclosed elements.
    cases inside : openNames [] es with
    | none =>
      have closed := (at_nil keepsChildren).root_foldl_step upward_keepsChildren inside
      rw [root] at closed
      simp at closed
    | some names =>
      have here := (at_nil keepsChildren).foldl_step upward_keepsChildren inside
      rw [openNames_of_reads reads inside] at here
      exact here.inStep
  · intro root isRoot
    -- The tree is the pruned one of the whole document.
    rw [root_ofScan upward_keepsChildren] at isRoot
    obtain ⟨whole, -, rfl⟩ := Option.map_eq_some_iff.1 isRoot
    have outside : ([] : List String).length ≤ 5 := Nat.zero_le 5
    exact Element.height_prune_le (fun _ => length_le_of_keepsChildren) outside whole

/-- Behind the last event of a document that ends inside of two elements that are passed over. -/
theorem inStep_of_events_passed :
    let content := "<projectDescription><projects><a:extra><b/><c><name>x".toList
    let t := (scan content).events.foldl (step keepsChildren) {}
    t.root? = none ∧
      ∃ unclosed rest, Reads [] (dropMark content) (scan content).events unclosed rest ∧
        t.opened.length + t.skipped = unclosed.length := by
  intro content t
  have root : t.root? = none := by
    have inside : openNames [] (scan content).events =
        some ["name", "c", "extra", "projects", "projectDescription"] := by decide +kernel
    exact ((at_nil keepsChildren).foldl_step upward_keepsChildren inside).root
  obtain ⟨unclosed, rest, reads, inStep⟩ :=
    (inStep_of_events content).1 _ List.prefix_rfl root
  exact ⟨root, unclosed, rest, reads, inStep.count⟩

end Tree

end ProjectFile
