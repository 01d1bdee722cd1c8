import Mathlib.Logic.Relation
import ProjectFile.Proofs.Reading.Essence
import ProjectFile.Proofs.Reading.Runs
import ProjectFile.Proofs.Text.Trim

/-!
# Spelling makes no difference

One document can be spelled in many ways: an element without content by one tag or by two, with
other attributes and prefixes, with comments anywhere, with text as it is or in CDATA sections,
with white space around values and between elements, and with anything at all inside of elements
that are passed over.  `Respells` are the changes from one spelling to another, at one place of a
document; `Respelling` is one such change to a document.

A change has the same effect on the tree that is built, but for what does not count in it.  So
the reading of a document stays the same under any number of changes.

White space in the middle of a value counts, also where it is put between two elements.

## Key results

- `Respells.exists_sameEffect`: each change has the same effect, wherever it is made
- `Respelling.alike`: one change to a document leads to a tree that is alike
- `Reading.ofText_respelled`: any number of changes leave the reading as it is
-/

namespace ProjectFile

open ProjectFile.Text ProjectFile.Markup

/-! ## Changes of spelling -/

/-- A change to how a part of a document is spelled, where the elements named by `opened` are
    open. -/
inductive Respells (opened : List (List Char)) : List Char → List Char → Prop
  /-- A start tag and its end tag become one tag. -/
  | contract {start stop tag full full' : List Char} (opens : Piece start (.openTag full))
      (closes : Piece stop (.closeTag full)) (isTag : Piece tag (.emptyTag full'))
      (same : localName full = localName full') : Respells opened (start ++ stop) tag
  /-- The tag of an empty element becomes a start tag and its end tag. -/
  | expand {start stop tag full full' : List Char} (opens : Piece start (.openTag full))
      (closes : Piece stop (.closeTag full)) (isTag : Piece tag (.emptyTag full'))
      (same : localName full = localName full') : Respells opened tag (start ++ stop)
  /-- The tag of an empty element has other attributes, or another prefix. -/
  | retag {tag tag' full full' : List Char} (isTag : Piece tag (.emptyTag full))
      (isTag' : Piece tag' (.emptyTag full')) (same : localName full = localName full') :
      Respells opened tag tag'
  /-- The tags of an element have other attributes, or both have another prefix. -/
  | retagBoth {start start' inner stop stop' full full' : List Char} {es : List Event}
      (opens : Piece start (.openTag full)) (opens' : Piece start' (.openTag full'))
      (inside : Reads [] inner es [] []) (closes : Piece stop (.closeTag full))
      (closes' : Piece stop' (.closeTag full')) (same : localName full = localName full') :
      Respells opened (start ++ (inner ++ stop)) (start' ++ (inner ++ stop'))
  /-- A comment or an instruction is put in. -/
  | annotate {note : List Char} (isAside : Piece note .aside) : Respells opened [] note
  /-- A piece of text becomes a CDATA section. -/
  | asData {raw text : List Char} (nonempty : raw ≠ []) (plain : ∀ c ∈ raw, c ≠ '<')
      (resolves : resolve raw = .ok text) (bare : ¬ "]]>".toList <:+: text) :
      Respells opened raw ("<![CDATA[".toList ++ (text ++ "]]>".toList))
  /-- An element is put into one whose children are not kept. -/
  | insert {name : String} {child : List Char} {es : List Event}
      (passed : keepsChildren (opened.map localName).reverse = false)
      (isElement : ReadsElement name child es) : Respells opened [] child
  /-- An element is taken out of one whose children are not kept. -/
  | delete {name : String} {child : List Char} {es : List Event}
      (passed : keepsChildren (opened.map localName).reverse = false)
      (isElement : ReadsElement name child es) : Respells opened child []
  /-- White space is put into an element whose text is not read as a value. -/
  | space {blank : String} (nonempty : blank ≠ "") (white : IsWhite blank)
      (unread : holdsValue (opened.map localName) = false) : Respells opened [] blank.toList
  /-- White space is put into an element where its text starts, or where its text ends. -/
  | pad {start before after stop full : List Char} {es es' : List Event} {blank : String}
      (opens : Piece start (.openTag full)) (front : Reads [] before es [] [])
      (cut : CutsNoReference es) (back : Reads [] after es' [] [])
      (closes : Piece stop (.closeTag full)) (nonempty : blank ≠ "") (white : IsWhite blank)
      (edge : IsWhite (Tree.directTexts 0 es) ∨ IsWhite (Tree.directTexts 0 es')) :
      Respells opened (start ++ (before ++ after ++ stop))
        (start ++ (before ++ (blank.toList ++ after) ++ stop))

/-- One change to how a document is spelled, at a place that is not inside of a reference. -/
inductive Respelling : List Char → List Char → Prop
  | of_respells {front part part' back : List Char} {es : List Event}
      {opened : List (List Char)} (reads : Reads [] front es opened []) (cut : CutsNoReference es)
      (change : Respells opened part part') :
      Respelling (front ++ (part ++ back)) (front ++ (part' ++ back))

/-! ## The same effect -/

namespace Tree

/-- A tree that is built as far as a place where the elements named by `opened` are open.  Once
    the root is closed, nothing is built any more. -/
def Placed (opened : List (List Char)) (t : Tree) : Prop :=
  t.root?.isSome = true ∨ t.At keepsChildren (opened.map localName)

/-- A tree starts outside of all elements. -/
private theorem placed_nil : Placed [] {} :=
  .inr (at_nil _)

/-- A run leads to the place behind its events. -/
private theorem Placed.foldl_step {opened opened' : List (List Char)} {s rest : List Char}
    {es : List Event} {t : Tree} (h : t.Placed opened) (reads : Reads opened s es opened' rest) :
    (es.foldl (Tree.step keepsChildren) t).Placed opened' := by
  rcases h with root | place
  · rw [foldl_step_of_root root]
    exact .inl root
  · -- The root may be closed on the way.
    cases inside : openNames (opened.map localName) es with
    | none => exact .inl (place.root_foldl_step upward_keepsChildren inside)
    | some names =>
      rw [openNames_of_reads reads inside] at inside
      exact .inr (place.foldl_step upward_keepsChildren inside)

/-- Events have the same effect where the elements named by `opened` are open: unless there are
    problems, they lead to trees that are alike. -/
def SameEffect (opened : List (List Char)) (es es' : List Event) : Prop :=
  ∀ t : Tree, t.Placed opened → (es.foldl (Tree.step keepsChildren) t).latest = [] →
    (es.foldl (Tree.step keepsChildren) t).Alike (es'.foldl (Tree.step keepsChildren) t)

variable {opened : List (List Char)} {es es' : List Event}

/-- Events have the same effect as themselves. -/
private theorem sameEffect_refl (opened : List (List Char)) (es : List Event) :
    SameEffect opened es es :=
  fun _ _ _ => .refl _

/-- Only trees whose root is open have to be looked at. -/
private theorem sameEffect_of_at
    (h : ∀ t : Tree, t.At keepsChildren (opened.map localName) →
      (es.foldl (Tree.step keepsChildren) t).latest = [] →
      (es.foldl (Tree.step keepsChildren) t).Alike (es'.foldl (Tree.step keepsChildren) t)) :
    SameEffect opened es es' := by
  rintro t (root | place) clean
  · rw [foldl_step_of_root root, foldl_step_of_root root]
    exact .refl t
  · exact h t place clean

/-! ### Tags -/

section
variable {keeps : List String → Bool} {t : Tree}

/-- An element that is closed as soon as it is opened is an empty one. -/
private theorem step_opened_closed (root : t.root? = none) (name name' : String) :
    (t.step keeps (.opened name)).step keeps (.closed name') = t.step keeps (.empty name) := by
  obtain ⟨os, skipped, root?, latest⟩ := t
  obtain rfl : root? = none := root
  -- The element is passed over, kept with its children, or kept without them.
  by_cases passing : 0 < skipped
  · have stays : ¬ skipped = 0 := by omega
    simp [Tree.step, advance, passing, stays]
  · obtain rfl : skipped = 0 := by omega
    by_cases kept : keeps (⟨os, 0, none, latest⟩ : Tree).path = true
    · simp [Tree.step, advance, kept, closeInnermost, OpenElement.close]
    · simp [Tree.step, advance, kept]

/-- Two tags without content have the effect of one tag. -/
private theorem sameEffect_contract (opened : List (List Char)) (name : String) :
    SameEffect opened [.opened name, .closed name] [.empty name] :=
  sameEffect_of_at fun t place _ => by
    simp only [List.foldl_cons, List.foldl_nil, step_opened_closed place.root]
    exact .refl _

/-- One tag has the effect of two tags without content. -/
private theorem sameEffect_expand (opened : List (List Char)) (name : String) :
    SameEffect opened [.empty name] [.opened name, .closed name] :=
  sameEffect_of_at fun t place _ => by
    simp only [List.foldl_cons, List.foldl_nil, step_opened_closed place.root]
    exact .refl _

/-! ### Comments and texts -/

/-- What is set aside leaves the tree as it is. -/
private theorem step_aside (t : Tree) : t.step keeps .aside = t := by
  unfold Tree.step
  split <;> rfl

/-- Something that is set aside has no effect. -/
private theorem sameEffect_annotate (opened : List (List Char)) : SameEffect opened [] [.aside] :=
  fun t _ _ => by
    rw [List.foldl_cons, step_aside]
    exact .refl t

/-- A text is read as the data that it resolves to. -/
private theorem step_text_eq_data {raw text : List Char} (resolves : resolve raw = .ok text) :
    t.step keeps (.text raw) = t.step keeps (.data text) := by
  unfold Tree.step
  split
  · rfl
  · rw [advance, advance]
    split
    · rfl
    · rw [Tree.addText, resolves]
      split
      · rename_i outside
        rw [Tree.append, List.isEmpty_iff.1 outside]
      · rfl

/-- A text that resolves has the effect of a CDATA section with what it resolves to. -/
private theorem sameEffect_asData {raw text : List Char} (resolves : resolve raw = .ok text)
    (opened : List (List Char)) : SameEffect opened [.text raw] [.data text] :=
  fun t _ _ => by
    simp only [List.foldl_cons, List.foldl_nil, step_text_eq_data resolves]
    exact .refl _

/-! ### Elements that are passed over -/

/-- An element inside of one whose children are not kept leaves the tree as it is. -/
private theorem foldl_child_of_passed (root : t.root? = none)
    (passed : t.skipped = 0 → keeps t.path = false) {name : String} {child : List Char}
    (isElement : ReadsElement name child es) : es.foldl (Tree.step keeps) t = t := by
  cases isElement with
  | empty =>
    have stays : ¬ (t.skipped = 0 ∧ keeps t.path = true) := fun both => by
      simp [passed both.1] at both
    rw [List.foldl_cons, List.foldl_nil, step_of_root_eq_none root, advance, if_neg stays]
  | @pair _ _ _ _ es opens inside closes =>
    -- The start tag is counted, what is inside leaves the tree as it is, and the end tag is taken
    -- off the count.
    have deeper : t.step keeps (.opened name) = { t with skipped := t.skipped + 1 } := by
      rw [step_of_root_eq_none root, advance]
      split
      · rfl
      · rename_i notPassing
        have none : t.skipped = 0 := by omega
        rw [if_neg (by simp [passed none]), none]
    have inner : es.foldl (Tree.step keeps) { t with skipped := t.skipped + 1 } =
        { t with skipped := t.skipped + 1 } := by
      rw [foldl_passed (t := { t with skipped := t.skipped + 1 }) (m := t.skipped) inside root
        (by simp)]
      simp
    have shallower :
        ({ t with skipped := t.skipped + 1 } : Tree).step keeps (.closed name) = t := by
      rw [step_of_root_eq_none (t := { t with skipped := t.skipped + 1 }) root, advance]
      simp
    rw [List.foldl_cons, deeper, List.foldl_append, inner, List.foldl_cons, List.foldl_nil,
      shallower]

/-- An element at a place whose children are not kept leaves the tree as it is. -/
private theorem foldl_child (t : Tree) {name : String} {child : List Char}
    (place : t.At keepsChildren (opened.map localName))
    (passed : keepsChildren (opened.map localName).reverse = false)
    (isElement : ReadsElement name child es) :
    es.foldl (Tree.step keepsChildren) t = t := by
  refine foldl_child_of_passed place.root (fun none => ?_) isElement
  have kept := place.isKept_of_not_pos upward_keepsChildren (by omega)
  rw [place.path_eq kept, passed]

/-- An element that is passed over can be put into a document. -/
private theorem sameEffect_insert {name : String} {child : List Char}
    (passed : keepsChildren (opened.map localName).reverse = false)
    (isElement : ReadsElement name child es) : SameEffect opened [] es :=
  sameEffect_of_at fun t place _ => by
    rw [foldl_child t place passed isElement]
    exact .refl t

/-- An element that is passed over can be taken out of a document. -/
private theorem sameEffect_delete {name : String} {child : List Char}
    (passed : keepsChildren (opened.map localName).reverse = false)
    (isElement : ReadsElement name child es) : SameEffect opened es [] :=
  sameEffect_of_at fun t place _ => by
    rw [foldl_child t place passed isElement]
    exact .refl t

/-! ### White space -/

/-- White space resolves to itself. -/
private theorem resolve_white {blank : String} (white : IsWhite blank) :
    resolve blank.toList = .ok blank.toList :=
  resolve_of_plain fun _ hc => white.ne hc (by decide)

/-- Text in an element whose text is not read as a value does not count. -/
private theorem alike_append_of_unread (unread : holdsValue t.around = false) (text : List Char) :
    t.Alike (t.append text) := by
  -- Outside of the root no text is added at all.
  cases opened : t.opened with
  | nil =>
    simp only [Tree.append, opened]
    exact .refl t
  | cons o outer =>
    rw [around, opened, List.map_cons] at unread
    refine ⟨?_, ?_, ?_, ?_⟩
    · simp [Tree.append, opened, essencesOpened, OpenElement.essence, unread]
    · simp [Tree.append, opened]
    · simp [Tree.append, opened]
    · simp [Tree.append, opened]

/-- White space in an element whose text is not read does not count. -/
private theorem alike_space (place : t.At keepsChildren (opened.map localName))
    (unread : holdsValue (opened.map localName) = false) {blank : String}
    (white : IsWhite blank) : t.Alike (t.step keepsChildren (.text blank.toList)) := by
  -- The text is added to the element, or it is passed over.
  by_cases takes : t.TakesText
  · have notPassing : ¬ 0 < t.skipped := by
      rw [takes.2.1]
      exact Nat.lt_irrefl 0
    have kept := place.isKept_of_not_pos upward_keepsChildren notPassing
    have around : t.around = opened.map localName := by
      rw [Tree.around, place.opened, keptNames_of_isKept kept]
    rw [takes.step_text, resolve_white white]
    exact alike_append_of_unread (around ▸ unread) _
  · rw [step_text_of_passed takes]
    exact .refl t

/-- White space has no effect in an element whose text is not read. -/
private theorem sameEffect_space (unread : holdsValue (opened.map localName) = false)
    {blank : String} (white : IsWhite blank) : SameEffect opened [] [.text blank.toList] :=
  sameEffect_of_at fun _ place _ => alike_space place unread white

/-- An element whose text is read as a value is kept, and its children are not. -/
theorem isKept_of_holdsValue {name : String} {names : List String}
    (h : holdsValue (name :: names) = true) :
    isKept keepsChildren (name :: names) = true ∧
      keepsChildren (name :: names).reverse = false := by
  have leaves : ∀ p ∈ valuePaths, keepsChildren p.dropLast = true ∧ keepsChildren p = false := by
    decide
  obtain ⟨above, leaf⟩ := leaves _ (List.contains_iff_mem.1 h)
  rw [List.reverse_cons, List.dropLast_concat] at above
  exact ⟨above, leaf⟩

/-- Opening an element whose text is read as a value. -/
theorem inLeaf_opened (place : t.At keepsChildren (opened.map localName)) {name : String}
    (value : holdsValue (name :: opened.map localName) = true) :
    (t.step keepsChildren (.opened name)).InLeaf keepsChildren { name } t.opened 0 := by
  obtain ⟨inside, leaf⟩ := isKept_of_holdsValue value
  have kept := isKept_of_cons upward_keepsChildren inside
  have names : t.opened.map OpenElement.name = opened.map localName := by
    rw [place.opened, keptNames_of_isKept kept]
  -- The element is kept, so nothing is passed over around it.
  have none : t.skipped = 0 := by
    have := place.skipped
    rw [keptNames_of_isKept kept] at this
    omega
  have opens : t.step keepsChildren (.opened name) = { t with opened := { name } :: t.opened } := by
    rw [place.step_eq, advance, if_neg (by omega), place.keeps_path kept name, if_pos inside]
  rw [opens]
  exact
    { opened := rfl
      skipped := none
      root := place.root
      passed := by
        rw [path, List.map_cons, names]
        exact leaf }

/-- The end tag of a leaf attaches it to what is around it. -/
theorem InLeaf.step_closed {o : OpenElement} {outer : List OpenElement}
    (h : t.InLeaf keeps o outer 0) (name : String) :
    t.step keeps (.closed name) = ({ t with opened := outer } : Tree).attach o.close := by
  rw [step_of_root_eq_none h.root, advance, if_neg (by rw [h.skipped]; exact Nat.lt_irrefl 0),
    closeInnermost, h.opened]

/-- White space is added to the text of a leaf. -/
theorem InLeaf.step_text {o : OpenElement} {outer : List OpenElement}
    (h : t.InLeaf keeps o outer 0) {blank : String} (white : IsWhite blank) :
    t.step keeps (.text blank.toList) = t.addLeaf o outer blank 0 [] := by
  have takes : t.TakesText := ⟨h.root, h.skipped, by simp [h.opened]⟩
  rw [takes.step_text, resolve_white white]
  simp [Tree.append, h.opened, Tree.addLeaf, h.skipped]

/-- More white space where the text of an element starts or ends does not count once the element
    is closed. -/
private theorem alike_pad (place : t.At keepsChildren (opened.map localName)) (full : List Char)
    {before after : List Char} (front : Reads [] before es [] [])
    (back : Reads [] after es' [] []) {blank : String} (white : IsWhite blank)
    (edge : IsWhite (directTexts 0 es) ∨ IsWhite (directTexts 0 es')) :
    let inside := es.foldl (Tree.step keepsChildren)
      (t.step keepsChildren (.opened (localName full)))
    ((es'.foldl (Tree.step keepsChildren) inside).step keepsChildren
        (.closed (localName full))).Alike
      ((es'.foldl (Tree.step keepsChildren) (inside.step keepsChildren
        (.text blank.toList))).step keepsChildren (.closed (localName full))) := by
  intro inside
  by_cases value : holdsValue (localName full :: opened.map localName) = true
  · -- The element is a leaf of the tree: only its text changes until it is closed.
    have leaf := inLeaf_opened place value
    obtain ⟨ps, first⟩ := @exists_foldl_part keepsChildren t.opened _ _ front (localName full)
    obtain ⟨ps', later⟩ := @exists_foldl_part keepsChildren t.opened _ _ back (localName full)
    have middle : inside = _ := first _ _ rfl leaf
    have inFront := leaf.addLeaf (directTexts 0 es) 0 ps
    rw [← middle] at inFront
    have padded := inFront.step_text white
    have inPadded := inFront.addLeaf blank 0 []
    rw [← padded] at inPadded
    rw [later _ _ rfl inFront, later _ _ rfl inPadded,
      (inFront.addLeaf _ 0 ps').step_closed, (inPadded.addLeaf _ 0 ps').step_closed, padded]
    have names : t.opened.map OpenElement.name = opened.map localName := by
      rw [place.opened, keptNames_of_isKept
        (isKept_of_cons upward_keepsChildren (isKept_of_holdsValue value).1)]
    -- Both leaves are trimmed when they are closed, so the padding is gone.
    refine (Alike.refl _).attach ?_
    rw [around, names, OpenElement.close, OpenElement.close, Element.essence_mk,
      Element.essence_mk, if_pos value, if_pos value]
    simp only [String.empty_append, String.append_assoc, trim_append_white white edge]
  · -- The text of the element does not count at all.
    rw [Bool.not_eq_true] at value
    have isOpen : (t.step keepsChildren (.opened (localName full))).Placed (full :: opened) :=
      .inr (place.step upward_keepsChildren rfl)
    have same : inside.Alike (inside.step keepsChildren (.text blank.toList)) := by
      rcases isOpen.foldl_step (front.under (full :: opened)) with root | inFront
      · have stays : inside.step keepsChildren (.text blank.toList) = inside :=
          foldl_step_of_root root [_]
        rw [stays]
        exact .refl _
      · exact alike_space inFront value white
    exact (same.foldl_step _ es').step _ _

/-- White space where the text of an element starts or ends has no effect. -/
private theorem sameEffect_pad {full before after : List Char} (front : Reads [] before es [] [])
    (cut : CutsNoReference es) (back : Reads [] after es' [] []) {blank : String}
    (white : IsWhite blank) (edge : IsWhite (directTexts 0 es) ∨ IsWhite (directTexts 0 es')) :
    SameEffect opened
      (.opened (localName full) :: (joinEvents es es' ++ [.closed (localName full)]))
      (.opened (localName full) ::
        (joinEvents es (joinEvents [.text blank.toList] es') ++ [.closed (localName full)])) := by
  refine sameEffect_of_at fun t place clean => ?_
  have same := alike_pad place full front back white edge
  simp only [List.foldl_cons, List.foldl_append, List.foldl_nil] at clean ⊢
  -- In both runs a text that goes on comes to the same as its two parts.
  have parts := foldl_joinEvents (.inl ⟨cut, latest_of_step clean⟩)
  rw [parts] at clean ⊢
  have clean' := latest_of_step (same.latest ▸ clean)
  have parts' : (joinEvents [.text blank.toList] es').foldl _ _ = _ :=
    foldl_joinEvents (.inr clean')
  rw [foldl_joinEvents (.inr (by rw [parts']; exact clean')), parts']
  exact same

end

end Tree

/-! ## Changes to a document -/

open ProjectFile.Tree in
/-- A change leaves open what is open around it, and has the same effect as what it changes. -/
theorem Respells.exists_sameEffect {opened : List (List Char)} {part part' : List Char}
    (h : Respells opened part part') :
    ∃ es es', Reads opened part es opened [] ∧ Reads opened part' es' opened [] ∧
      CutsNoReference es ∧ SameEffect opened es es' := by
  -- Only a part that ends with a text could cut a reference in two.
  have ended : ∀ name es, CutsNoReference (.opened name :: (es ++ [.closed name])) := by
    intro name es raw last
    rw [← List.cons_append, List.getLast?_concat] at last
    simp at last
  have single : ∀ e, (∀ raw, e ≠ .text raw) → CutsNoReference [e] := by
    intro e notText raw last
    exact absurd (Option.some.inj last) (notText raw)
  have whiteText : ∀ {blank : String}, blank ≠ "" → IsWhite blank → ∀ opened,
      Reads opened blank.toList [.text blank.toList] opened [] := by
    intro blank nonempty white opened
    refine (Piece.text ?_ fun c hc => white.ne hc (by decide)).reads_alone rfl
    simpa using nonempty
  -- For each change, the events of both spellings and the lemma on their effect.
  cases h with
  | contract opens closes isTag same =>
    have pair := (ReadsElement.pair opens (.done _ _) closes same).reads opened
    have tag : Reads opened _ _ opened [] := isTag.reads_alone rfl
    exact ⟨_, _, pair, tag, ended _ [], sameEffect_contract _ _⟩
  | expand opens closes isTag same =>
    have pair := (ReadsElement.pair opens (.done _ _) closes same).reads opened
    exact ⟨_, _, isTag.reads_alone rfl, pair, single _ (by simp), sameEffect_expand _ _⟩
  | retag isTag isTag' same =>
    have tag := (ReadsElement.empty isTag same).reads opened
    exact ⟨_, _, tag, isTag'.reads_alone rfl, single _ (by simp), sameEffect_refl _ _⟩
  | retagBoth opens opens' inside closes closes' same =>
    have element := (ReadsElement.pair opens inside closes same).reads opened
    have element' := (ReadsElement.pair opens' inside closes' rfl).reads opened
    exact ⟨_, _, element, element', ended _ _, sameEffect_refl _ _⟩
  | annotate isAside =>
    exact ⟨_, _, .done _ _, isAside.reads_alone rfl, cutsNoReference_nil, sameEffect_annotate _⟩
  | asData nonempty plain resolves bare =>
    refine ⟨_, _, (Piece.text nonempty plain).reads_alone rfl, (Piece.data bare).reads_alone rfl,
      ?_, sameEffect_asData resolves _⟩
    intro raw last
    cases last
    exact (resolve_eq_ok_iff.1 resolves).endsOutside
  | insert passed isElement =>
    exact ⟨_, _, .done _ _, isElement.reads opened, cutsNoReference_nil,
      sameEffect_insert passed isElement⟩
  | delete passed isElement =>
    refine ⟨_, _, isElement.reads opened, .done _ _, ?_, sameEffect_delete passed isElement⟩
    cases isElement with
    | empty => exact single _ (by simp)
    | pair => exact ended _ _
  | space nonempty white unread =>
    exact ⟨_, _, .done _ _, whiteText nonempty white opened, cutsNoReference_nil,
      sameEffect_space unread white⟩
  | pad opens front cut back closes nonempty white edge =>
    have inside := front.join back (stops_nil _)
    have padded := front.join ((whiteText nonempty white []).join back (stops_nil _)) (stops_nil _)
    have element := (ReadsElement.pair opens inside closes rfl).reads opened
    have element' := (ReadsElement.pair opens padded closes rfl).reads opened
    exact ⟨_, _, element, element', ended _ _, sameEffect_pad front cut back white edge⟩

namespace Tree

/-- The tree that is built of the events of a document, before it is finished. -/
def built (s : List Char) : Tree :=
  (eventsFrom [] s).foldl (Tree.step keepsChildren) {}

end Tree

/-- A change to a document leads to a tree that is alike. -/
theorem Respelling.alike {s s' : List Char} (h : Respelling s s')
    (clean : (Tree.built s).latest = []) : (Tree.built s).Alike (Tree.built s') := by
  cases h with
  | @of_respells front part part' back es opened reads cut change =>
    obtain ⟨partly, partly', readsPart, readsPart', cutPart, same⟩ := change.exists_sameEffect
    have whole := eventsFrom_append reads (part ++ back)
    have whole' := eventsFrom_append reads (part' ++ back)
    rw [eventsFrom_append readsPart] at whole
    rw [eventsFrom_append readsPart'] at whole'
    simp only [Tree.built, whole, whole'] at clean ⊢
    -- The document is built part by part, and only the middle one is changed.
    have first := Tree.foldl_joinEvents (.inl ⟨cut, clean⟩)
    rw [first] at clean ⊢
    have second := Tree.foldl_joinEvents (.inl ⟨cutPart, clean⟩)
    rw [second] at clean ⊢
    -- The tree before the part is at its place, so the change has the same effect there.
    have changed := same _ (Tree.placed_nil.foldl_step reads) (Tree.latest_of_foldl clean)
    have alike := changed.foldl_step keepsChildren (eventsFrom opened back)
    have clean' := alike.latest ▸ clean
    have second' := Tree.foldl_joinEvents (.inr clean')
    rw [Tree.foldl_joinEvents (.inr (by rw [second']; exact clean')), second']
    exact alike

/-- Any number of changes to a document lead to a tree that is alike. -/
private theorem alike_of_respellings {s s' : List Char} (h : Relation.ReflTransGen Respelling s s')
    (clean : (Tree.built s).latest = []) : (Tree.built s).Alike (Tree.built s') := by
  induction h with
  | refl => exact .refl _
  | tail _ last ih => exact ih.trans (last.alike (ih.latest ▸ clean))

/-! ## Readings -/

namespace Reading

/-- A document whose root is closed is read as the tree that is built of its events. -/
private theorem ofText_eq_of_root [Uri.DomainNames] {content : String}
    (root : (Tree.built (dropMark content.toList)).root?.isSome = true) :
    ofText content = (Tree.built (dropMark content.toList)).reading := by
  have run : (scan content.toList).events.foldl (Tree.step keepsChildren) {} =
      Tree.built (dropMark content.toList) := by
    rw [events_scan, Tree.built]
  rw [ofText, Tree.ofScan, run, Tree.finish_of_root root]

/-- A document whose root is closed, and whose texts resolve, is read in the same way however it
    is spelled. -/
theorem ofText_respelled [Uri.DomainNames] (content content' : String)
    (closes : openNames [] (scan content.toList).events = none)
    (resolves : unresolvedTexts [] (scan content.toList).events = [])
    (respelled : Relation.ReflTransGen Respelling (dropMark content.toList)
      (dropMark content'.toList)) :
    ofText content' = ofText content := by
  have start := Tree.at_nil keepsChildren
  rw [events_scan] at closes resolves
  have root := start.root_foldl_step upward_keepsChildren closes
  have clean : (Tree.built (dropMark content.toList)).latest = [] := by
    rw [Tree.built, start.latest_foldl_step upward_keepsChildren, resolves]
    rfl
  have alike := alike_of_respellings respelled clean
  rw [ofText_eq_of_root root, ofText_eq_of_root (alike.isSome_root ▸ root), alike.reading]

/-- A comment in the middle of a name. -/
theorem ofText_respelled_annotated :
    let content := "<projectDescription><name>ab</name></projectDescription>"
    let content' := "<projectDescription><name>a<!-- & -->b</name></projectDescription>"
    openNames [] (scan content.toList).events = none ∧
      unresolvedTexts [] (scan content.toList).events = [] ∧
      Relation.ReflTransGen Respelling (dropMark content.toList) (dropMark content'.toList) ∧
      ofText content' = ofText content := by
  intro content content'
  have closes : openNames [] (scan content.toList).events = none := by decide +kernel
  have resolves : unresolvedTexts [] (scan content.toList).events = [] := by decide +kernel
  -- The comment comes behind the first letter of the name.
  let front := "<projectDescription><name>a".toList
  have stops : stop front = (["name".toList, "projectDescription".toList], []) := by
    decide +kernel
  have events : (scan front).events =
      [.opened "projectDescription", .opened "name", .text ['a']] := by decide +kernel
  have reads := reads_stop front
  rw [stops, events] at reads
  have cut : CutsNoReference [.opened "projectDescription", .opened "name", .text ['a']] := by
    intro raw last
    obtain rfl : ['a'] = raw := by simpa using last
    exact endsOutside_of_plain (by simp)
  have comment : Piece "<!-- & -->".toList .aside := fun _ _ => by
    simp [nextToken, markupStep, commentStep, cutAt]
  have change := @Respelling.of_respells _ _ _ "b</name></projectDescription>".toList _ _
    reads cut (.annotate comment)
  have before : dropMark content.toList =
      dropMark front ++ ([] ++ "b</name></projectDescription>".toList) := by decide +kernel
  have after : dropMark content'.toList =
      dropMark front ++ ("<!-- & -->".toList ++ "b</name></projectDescription>".toList) := by
    decide +kernel
  rw [← before, ← after] at change
  have respelled := Relation.ReflTransGen.single change
  exact ⟨closes, resolves, respelled, ofText_respelled content content' closes resolves respelled⟩

/-- White space between two elements in the middle of a name is a part of the name. -/
theorem name_ofText_spaced :
    let front := "<projectDescription><name>foo"
    let back := "bar</name></projectDescription>"
    let content := front ++ "<b/>" ++ "<c/>" ++ back
    let spaced := front ++ "<b/>" ++ " " ++ "<c/>" ++ back
    openNames [] (scan content.toList).events = none ∧
      unresolvedTexts [] (scan content.toList).events = [] ∧
      (ofText content).description?.map Description.name? = some (some "foobar") ∧
      (ofText spaced).description?.map Description.name? = some (some "foo bar") := by
  intro front back content spaced
  exact ⟨by decide +kernel, by decide +kernel, by decide +kernel, by decide +kernel⟩

end Reading

end ProjectFile
