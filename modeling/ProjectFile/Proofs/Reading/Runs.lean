import ProjectFile.Proofs.Markup.Parts
import ProjectFile.Proofs.Reading.Building

/-!
# Runs over a part of a document

A document can be read part by part.  A text that is cut outside of its references comes to the
same as its two parts, so the tree that is built of parts one behind the other is built of the
first part, and then of the next one.

A part that is read inside of an element whose children are not kept leaves the tree as it is, but
for the text of that element.

## Key results

- `Tree.foldl_joinEvents`: a run over two parts is a run over the first one and then the other
- `Tree.foldl_passed`, `Tree.exists_foldl_part`: runs inside of an element whose children are not
  kept
-/

namespace ProjectFile

open ProjectFile.Markup

/-- Whether other events can follow some events without going on with a reference. -/
def CutsNoReference (es : List Event) : Prop :=
  ∀ raw, es.getLast? = some (.text raw) → EndsOutside raw

/-- No events cut no reference. -/
theorem cutsNoReference_nil : CutsNoReference [] := by
  intro raw h
  simp at h

namespace Tree

variable {keeps : List String → Bool} {t : Tree} {o : OpenElement} {outer : List OpenElement}

/-! ## Problems along a run -/

/-- No event takes a problem back. -/
theorem latest_of_step (h : (t.step keeps e).latest = []) : t.latest = [] := by
  -- Each event adds to the problems, or leaves them as they are.
  unfold Tree.step at h
  split at h
  · exact h
  · cases e with
    | opened name =>
      simp only [advance] at h
      split at h
      · exact h
      · split at h
        · exact h
        · exact h
    | empty name =>
      simp only [advance] at h
      split at h
      · rwa [latest_attach] at h
      · exact h
    | closed name =>
      simp only [advance] at h
      split at h
      · exact h
      · rwa [latest_closeInnermost] at h
    | text raw =>
      simp only [advance, Tree.addText] at h
      split at h
      · exact h
      · split at h
        · exact h
        · split at h
          · rwa [latest_append] at h
          · simp [Tree.note] at h
    | data content =>
      simp only [advance] at h
      split at h
      · exact h
      · rwa [latest_append] at h
    | aside => exact h

/-- No run takes a problem back. -/
theorem latest_of_foldl {es : List Event} (h : (es.foldl (Tree.step keeps) t).latest = []) :
    t.latest = [] := by
  induction es generalizing t with
  | nil => exact h
  | cons e es ih => exact latest_of_step (ih h)

/-! ## Texts in two parts -/

/-- Whether a text is added to the tree. -/
def TakesText (t : Tree) : Prop :=
  t.root? = none ∧ t.skipped = 0 ∧ t.opened ≠ []

instance (t : Tree) : Decidable t.TakesText :=
  inferInstanceAs (Decidable (_ ∧ _ ∧ _))

/-- A text that is not added to the tree changes nothing. -/
theorem step_text_of_passed (h : ¬ t.TakesText) (raw : List Char) :
    t.step keeps (.text raw) = t := by
  unfold Tree.step
  split
  · rfl
  · rename_i root
    simp only [advance, Tree.addText]
    split
    · rfl
    · rename_i skipped
      split
      · rfl
      · rename_i opened
        exact absurd ⟨by simpa using root, by omega, by simpa using opened⟩ h

/-- A text that is added is resolved, or noted as it stands. -/
theorem TakesText.step_text (h : t.TakesText) (raw : List Char) :
    t.step keeps (.text raw) =
      match resolve raw with
      | .ok text => t.append text
      | .error fault => (t.append raw).note (.unresolvedText t.innermost fault) := by
  obtain ⟨root, skipped, opened⟩ := h
  have nonempty : t.opened.isEmpty = false := by simpa using opened
  simp only [Tree.step, root, advance, skipped, Tree.addText, nonempty]
  rfl

/-- A tree that takes one text takes the next one too. -/
private theorem TakesText.append (h : t.TakesText) (text : List Char) :
    (t.append text).TakesText := by
  obtain ⟨root, skipped, opened⟩ := h
  obtain ⟨o, outer, eq⟩ := List.exists_cons_of_ne_nil opened
  simp only [Tree.append, eq]
  exact ⟨root, skipped, by simp⟩

/-- Two texts behind each other are added as one. -/
private theorem append_append (t : Tree) (text text' : List Char) :
    (t.append text).append text' = t.append (text ++ text') := by
  cases opened : t.opened with
  | nil => simp only [Tree.append, opened]
  | cons o outer => simp only [Tree.append, opened, String.append_assoc, String.ofList_append]

/-- A text that is added without a problem can be resolved. -/
private theorem TakesText.resolve_eq_ok (h : t.TakesText) {raw : List Char}
    (clean : (t.step keeps (.text raw)).latest = []) : ∃ text, resolve raw = .ok text := by
  rw [h.step_text] at clean
  cases resolved : resolve raw with
  | ok text => exact ⟨text, rfl⟩
  | error fault => simp [resolved, Tree.note] at clean

/-- A text that has no problem comes to the same as its two parts, if it is cut outside of its
    references. -/
private theorem step_text_append {raw raw' : List Char}
    (clean : (EndsOutside raw ∧ (t.step keeps (.text (raw ++ raw'))).latest = []) ∨
      ((t.step keeps (.text raw)).step keeps (.text raw')).latest = []) :
    t.step keeps (.text (raw ++ raw')) = (t.step keeps (.text raw)).step keeps (.text raw') := by
  -- A text that is not added is no matter; of one that is, both parts can be resolved.
  by_cases takes : t.TakesText
  · obtain ⟨front, back, first, later, whole⟩ : ∃ front back, resolve raw = .ok front ∧
        resolve raw' = .ok back ∧ resolve (raw ++ raw') = .ok (front ++ back) := by
      -- Either the whole text is known to be free of problems, or both parts are.
      rcases clean with ⟨outside, clean⟩ | clean
      · obtain ⟨text, whole⟩ := takes.resolve_eq_ok clean
        obtain ⟨front, back, first, later, rfl⟩ := (resolve_append_eq_ok_iff outside).1 whole
        exact ⟨front, back, first, later, whole⟩
      · obtain ⟨front, first⟩ := takes.resolve_eq_ok (latest_of_step clean)
        simp only [takes.step_text, first] at clean
        obtain ⟨back, later⟩ := (takes.append front).resolve_eq_ok clean
        have outside := (resolve_eq_ok_iff.1 first).endsOutside
        exact ⟨front, back, first, later,
          (resolve_append_eq_ok_iff outside).2 ⟨front, back, first, later, rfl⟩⟩
    simp only [takes.step_text, first, whole, (takes.append front).step_text, later,
      append_append]
  · simp only [step_text_of_passed takes]

/-- A run over two parts, one behind the other, is a run over the first part and then over the
    other one. -/
theorem foldl_joinEvents {es es' : List Event}
    (clean : (CutsNoReference es ∧ ((joinEvents es es').foldl (Tree.step keeps) t).latest = []) ∨
      (es'.foldl (Tree.step keeps) (es.foldl (Tree.step keeps) t)).latest = []) :
    (joinEvents es es').foldl (Tree.step keeps) t =
      es'.foldl (Tree.step keeps) (es.foldl (Tree.step keeps) t) := by
  -- Only a text at the end of the first part can be joined to one at the start of the other.
  fun_induction joinEvents es es' generalizing t with
  | case1 es' => rfl
  | case2 raw raw' es' =>
    simp only [List.foldl_cons, List.foldl_nil] at clean ⊢
    rw [step_text_append]
    rcases clean with ⟨cut, clean⟩ | clean
    · exact .inl ⟨cut raw rfl, latest_of_foldl clean⟩
    · exact .inr (latest_of_foldl clean)
  | case3 e es es' _ ih =>
    rw [List.foldl_cons, List.foldl_cons]
    apply ih
    rcases clean with ⟨cut, clean⟩ | clean
    · refine .inl ⟨fun raw last => cut raw ?_, clean⟩
      rw [List.getLast?_cons, last]
      rfl
    · exact .inr clean

/-! ## Inside of an element whose children are not kept -/

/-- How many elements are open after an event. -/
def depthAfter (depth : Nat) : Event → Nat
  | .opened _ => depth + 1
  | .closed _ => depth - 1
  | _ => depth

/-- The names that are left open are as many as the event says, and one is open where it closes
    one. -/
theorem length_of_eventOfToken {opened opened' : List (List Char)} {k : Token} {e : Event}
    (h : eventOfToken opened k = .ok (e, opened')) :
    opened'.length = depthAfter opened.length e ∧ ∀ name, e = .closed name → opened ≠ [] := by
  cases eventOfToken_eq_ok_iff.1 h with
  | closeTag => exact ⟨rfl, fun _ _ => List.cons_ne_nil _ _⟩
  | _ => exact ⟨rfl, fun _ closed => by simp at closed⟩

/-- While the root is not closed, an event is taken. -/
theorem step_of_root_eq_none (root : t.root? = none) (e : Event) :
    t.step keeps e = t.advance keeps e := by
  rw [Tree.step, root]
  rfl

/-- Inside of an element that is passed over, an event changes only how deep it is. -/
private theorem step_passed {opened opened' : List (List Char)} {k : Token} {e : Event} {m : Nat}
    (event : eventOfToken opened k = .ok (e, opened')) (root : t.root? = none)
    (skipped : t.skipped = opened.length + m) (deep : 0 < t.skipped) :
    t.step keeps e = { t with skipped := opened'.length + m } := by
  obtain ⟨length, nonempty⟩ := length_of_eventOfToken event
  -- An event that opens and closes nothing leaves the number of elements as it is.
  have stays : opened'.length = opened.length → t = { t with skipped := opened'.length + m } :=
    fun same => by rw [same, ← skipped]
  rw [step_of_root_eq_none root]
  cases e with
  | opened name =>
    have deeper : t.skipped + 1 = opened'.length + m := by
      rw [skipped, length, depthAfter]
      omega
    rw [advance, if_pos deep, deeper]
  | closed name =>
    have less : t.skipped - 1 = opened'.length + m := by
      have := List.length_pos_iff.2 (nonempty name rfl)
      rw [skipped, length, depthAfter]
      omega
    rw [advance, if_pos deep, less]
  | empty name =>
    rw [advance, if_neg fun both => by omega]
    exact stays length
  | aside => exact stays length
  | text raw =>
    rw [advance, if_pos deep]
    exact stays length
  | data content =>
    rw [advance, if_pos deep]
    exact stays length

/-- What is inside of an element that is passed over leaves the tree as it is. -/
theorem foldl_passed {opened opened' : List (List Char)} {s rest : List Char} {es : List Event}
    {m : Nat} (h : Reads opened s es opened' rest) (root : t.root? = none)
    (skipped : t.skipped = opened.length + (m + 1)) :
    es.foldl (Tree.step keeps) t = { t with skipped := opened'.length + (m + 1) } := by
  induction h generalizing t with
  | done => rw [List.foldl_nil, ← skipped]
  | event step _ ih =>
    obtain ⟨k, -, event⟩ := exists_token_of_event step
    rw [List.foldl_cons, step_passed event root skipped (by omega)]
    exact ih root rfl

/-- The text that an event adds to the element around it, if no other element is open in it. -/
def directText (depth : Nat) : Event → String
  | .text raw => if depth = 0 then heldText raw else ""
  | .data content => if depth = 0 then String.ofList content else ""
  | _ => ""

/-- Inside of an element that is open in it, no text is its own. -/
private theorem directText_of_pos {depth : Nat} (h : 0 < depth) (e : Event) :
    directText depth e = "" := by
  have deep : ¬ depth = 0 := by omega
  cases e <;> simp [directText, deep]

/-- The text that events add to the element around them, where `depth` elements are open in it. -/
def directTexts (depth : Nat) : List Event → String
  | [] => ""
  | e :: es => directText depth e ++ directTexts (depthAfter depth e) es

/-- A tree is in an element whose children are not kept, and `depth` elements are open in it. -/
structure InLeaf (keeps : List String → Bool) (o : OpenElement) (outer : List OpenElement)
    (depth : Nat) (t : Tree) : Prop where
  opened : t.opened = o :: outer
  skipped : t.skipped = depth
  root : t.root? = none
  passed : keeps t.path = false

/-- The tree with a text added to its innermost element and with more problems, where another
    number of elements is open in that element. -/
def addLeaf (t : Tree) (o : OpenElement) (outer : List OpenElement) (text : String) (depth : Nat)
    (ps : List Problem) : Tree :=
  { t with
    opened := { o with text := o.text ++ text } :: outer
    skipped := depth
    latest := ps ++ t.latest }

/-- With more text the tree is still in the element. -/
theorem InLeaf.addLeaf {depth : Nat} (h : t.InLeaf keeps o outer depth) (text : String)
    (depth' : Nat) (ps : List Problem) :
    (t.addLeaf o outer text depth' ps).InLeaf keeps { o with text := o.text ++ text } outer
      depth' where
  opened := rfl
  skipped := rfl
  root := h.root
  passed := by
    have passed := h.passed
    rw [path, h.opened] at passed
    exact passed

/-- Adding nothing changes nothing. -/
private theorem InLeaf.addLeaf_none {depth : Nat} (h : t.InLeaf keeps o outer depth) :
    t.addLeaf o outer "" depth [] = t := by
  rw [Tree.addLeaf, String.append_empty, ← h.opened, ← h.skipped]
  rfl

/-- The problem of a text that is added to an element. -/
def textFaults (element : String) (raw : List Char) : List Problem :=
  match resolve raw with
  | .ok _ => []
  | .error fault => [.unresolvedText element fault]

/-- Directly in an element whose children are not kept, only texts change the tree. -/
private theorem exists_step_leaf {opened opened' : List (List Char)} {k : Token} {e : Event}
    (event : eventOfToken opened k = .ok (e, opened')) (name : String) :
    ∃ ps, ∀ (t : Tree) (o : OpenElement), o.name = name →
      t.InLeaf keeps o outer opened.length →
      t.step keeps e = t.addLeaf o outer (directText opened.length e) opened'.length ps := by
  obtain ⟨length, nonempty⟩ := length_of_eventOfToken event
  -- Inside of a child nothing counts but how deep it is.
  by_cases deep : 0 < opened.length
  · refine ⟨[], fun t o _ leaf => ?_⟩
    rw [step_passed (m := 0) event leaf.root leaf.skipped (leaf.skipped ▸ deep),
      directText_of_pos deep, addLeaf, String.append_empty, ← leaf.opened]
    rfl
  · obtain rfl : opened = [] := List.length_eq_zero_iff.1 (by omega)
    cases e with
    | opened name =>
      refine ⟨[], fun t o _ leaf => ?_⟩
      rw [step_of_root_eq_none leaf.root, length]
      simp [advance, leaf.skipped, leaf.passed, directText, depthAfter, addLeaf, ← leaf.opened]
    | closed name => exact absurd rfl (nonempty name rfl)
    | text raw =>
      refine ⟨textFaults name raw, fun t o named leaf => ?_⟩
      rw [step_of_root_eq_none leaf.root, length]
      simp only [advance, leaf.skipped, List.length_nil, Nat.lt_irrefl, if_false, Tree.addText,
        leaf.opened, List.isEmpty_cons, Bool.false_eq_true, directText, if_true, heldText,
        textFaults, depthAfter]
      cases resolve raw with
      | ok text => simp [Tree.append, leaf.opened, addLeaf, leaf.skipped]
      | error fault =>
        simp [Tree.append, leaf.opened, addLeaf, leaf.skipped, Tree.note, innermost, named]
    | data content =>
      refine ⟨[], fun t o _ leaf => ?_⟩
      rw [step_of_root_eq_none leaf.root, length]
      simp [advance, leaf.skipped, directText, depthAfter, Tree.append, leaf.opened, addLeaf]
    | _ =>
      refine ⟨[], fun t o _ leaf => ?_⟩
      rw [step_of_root_eq_none leaf.root, length]
      have same := leaf.addLeaf_none
      simpa [advance, leaf.passed, directText, depthAfter] using same.symm

/-- What is inside of an element whose children are not kept adds to the text of that element, and
    has the same problems whatever the tree is that it is added to. -/
private theorem exists_foldl_leaf {opened opened' : List (List Char)} {s rest : List Char}
    {es : List Event} (h : Reads opened s es opened' rest) (name : String) :
    ∃ ps, ∀ (t : Tree) (o : OpenElement), o.name = name →
      t.InLeaf keeps o outer opened.length →
      es.foldl (Tree.step keeps) t =
        t.addLeaf o outer (directTexts opened.length es) opened'.length ps := by
  -- The text grows with each event, so the induction is for every text that is there before.
  induction h with
  | done => exact ⟨[], fun t o _ leaf => leaf.addLeaf_none.symm⟩
  | event step _ ih =>
    obtain ⟨k, -, event⟩ := exists_token_of_event step
    obtain ⟨ps, first⟩ := @exists_step_leaf keeps outer _ _ _ _ event name
    obtain ⟨ps', later⟩ := ih
    refine ⟨ps' ++ ps, fun t o named leaf => ?_⟩
    rw [List.foldl_cons, first t o named leaf,
      later _ { o with text := o.text ++ _ } named (leaf.addLeaf _ _ _), directTexts,
      (length_of_eventOfToken event).1]
    simp [addLeaf, String.append_assoc]

/-- A part that closes what it opens adds to the text of the element around it. -/
theorem exists_foldl_part {s : List Char} {es : List Event} (h : Reads [] s es [] [])
    (name : String) :
    ∃ ps, ∀ (t : Tree) (o : OpenElement), o.name = name → t.InLeaf keeps o outer 0 →
      es.foldl (Tree.step keeps) t = t.addLeaf o outer (directTexts 0 es) 0 ps :=
  exists_foldl_leaf h name

end Tree

end ProjectFile
