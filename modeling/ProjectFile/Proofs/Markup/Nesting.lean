import ProjectFile.Markup.Reference
import ProjectFile.Proofs.Markup.Reads

/-!
# Elements around an event

The events of a document say which elements are open at each place: `openNames` are their local
names, innermost first, as long as the root is not closed.  `unresolvedTexts` are the texts inside
of the root whose references cannot be resolved, each with the elements around it.

`endTags` closes what is open where a document stops.

## Key results

- `openNames_append`, `unresolvedTexts_append`: the events one after the other
- `openNames_of_reads`: the open elements are those whose names are in the way of end tags
- `reads_endTags`: the end tags of the open elements close them, from the innermost one on
-/

namespace ProjectFile.Markup

/-! ## Open elements -/

/-- The names of the open elements after an event, innermost first; nothing once the root is
    closed. -/
def Event.nest : List String → Event → Option (List String)
  | names, .opened name => some (name :: names)
  | [], .empty _ => none
  | [_], .closed _ => none
  | _ :: outer, .closed _ => some outer
  | names, _ => some names

/-- The names of the open elements after some events, innermost first; nothing once the root is
    closed. -/
def openNames (names : List String) (es : List Event) : Option (List String) :=
  es.foldlM Event.nest names

/-- No events leave the open names as they are. -/
@[simp] theorem openNames_nil (names : List String) : openNames names [] = some names := rfl

/-- The later events go on from what the first one leaves open. -/
@[simp] theorem openNames_cons (names : List String) (e : Event) (es : List Event) :
    openNames names (e :: es) = (e.nest names).bind fun names => openNames names es := rfl

/-- Events that follow go on with what the earlier ones leave open. -/
theorem openNames_append (names : List String) (es es' : List Event) :
    openNames names (es ++ es') =
      (openNames names es).bind fun names => openNames names es' := by
  simp [openNames, List.foldlM_append, Option.bind_eq_bind]

/-! ## Texts that cannot be resolved -/

/-- The fault of an event that is a text inside of the root whose references cannot be
    resolved, with the names of the elements around it. -/
def Event.textFault? (names : List String) : Event → Option (List String × ReferenceFault)
  | .text raw =>
    match names, resolve raw with
    | name :: outer, .error fault => some (name :: outer, fault)
    | _, _ => none
  | _ => none

/-- The texts inside of the root whose references cannot be resolved: the names of the elements
    around each of them, innermost first, and its fault. -/
def unresolvedTexts (names : List String) : List Event → List (List String × ReferenceFault)
  | [] => []
  | e :: es =>
    (e.textFault? names).toList ++
      match e.nest names with
      | some names => unresolvedTexts names es
      | none => []

/-- The texts of later events count only if the earlier ones leave the root open. -/
theorem unresolvedTexts_append (names : List String) (es es' : List Event) :
    unresolvedTexts names (es ++ es') =
      unresolvedTexts names es ++
        match openNames names es with
        | some names => unresolvedTexts names es'
        | none => [] := by
  induction es generalizing names with
  | nil => simp [unresolvedTexts]
  | cons e es ih =>
    rw [List.cons_append, unresolvedTexts, unresolvedTexts, openNames_cons]
    cases e.nest names with
    | none =>
      -- The root is closed, and no text after it counts.
      simp
    | some names => simp [ih]

/-- Events that are no texts, or texts that can be resolved, have no faults. -/
theorem unresolvedTexts_eq_nil {es : List Event}
    (h : ∀ raw, Event.text raw ∈ es → ∃ text, resolve raw = .ok text) (names : List String) :
    unresolvedTexts names es = [] := by
  -- The open names change from event to event, so the statement is for all of them.
  induction es generalizing names with
  | nil => rfl
  | cons e es ih =>
    have here : e.textFault? names = none := by
      cases e with
      | text raw =>
        obtain ⟨text, resolved⟩ := h raw (by simp)
        simp [Event.textFault?, resolved]
      | _ => rfl
    have later : ∀ names, unresolvedTexts names es = [] :=
      ih fun raw hraw => h raw (by simp [hraw])
    rw [unresolvedTexts, here]
    cases e.nest names with
    | none => rfl
    | some names => simp [later]

/-! ## End tags -/

/-- An event keeps the open elements the same as the names that end tags have to have. -/
private theorem nest_of_eventOfToken {opened opened' : List (List Char)} {t : Token} {e : Event}
    {names : List String} (h : eventOfToken opened t = .ok (e, opened'))
    (nest : e.nest (opened.map localName) = some names) : names = opened'.map localName := by
  cases eventOfToken_eq_ok_iff.1 h with
  | closeTag =>
    cases opened' with
    | nil =>
      -- The end tag of the root leaves no names.
      simp [Event.nest] at nest
    | cons next outer => simpa [Event.nest] using nest.symm
  | emptyTag =>
    cases opened with
    | nil => simp [Event.nest] at nest
    | cons innermost outer => simpa [Event.nest] using nest.symm
  | _ => simpa [Event.nest] using nest.symm

/-- While the root is open, the open elements are those that end tags are expected for. -/
theorem openNames_of_reads {opened opened' : List (List Char)} {s rest : List Char}
    {es : List Event} {names : List String} (h : Reads opened s es opened' rest)
    (inside : openNames (opened.map localName) es = some names) :
    names = opened'.map localName := by
  -- Induction on the events: after each of them the two lists of names are the same.
  induction h with
  | done => simpa using inside.symm
  | event step _ ih =>
    obtain ⟨t, -, event⟩ := exists_token_of_event step
    rw [openNames_cons] at inside
    obtain ⟨next, nest, inside⟩ := Option.bind_eq_some_iff.1 inside
    rw [nest_of_eventOfToken event nest] at inside
    exact ih inside

/-- The end tags of elements, from the innermost one on. -/
def endTags (opened : List (List Char)) : List Char :=
  opened.flatMap fun name => '<' :: '/' :: (name ++ ['>'])

/-- The events of the end tags of elements. -/
def closings (opened : List (List Char)) : List Event :=
  opened.map fun name => .closed (localName name)

/-- End tags start with markup, or there are none. -/
theorem startsMarkup_endTags (opened : List (List Char)) : StartsMarkup (endTags opened) := by
  cases opened with
  | nil => exact startsMarkup_nil
  | cons name opened => exact startsMarkup_cons _

/-- The end tags of all open elements close them. -/
theorem reads_endTags {opened : List (List Char)} (h : ∀ name ∈ opened, IsTagName name) :
    Reads opened (endTags opened) (closings opened) [] [] := by
  -- The innermost element is closed first, and the others behind it.
  induction opened with
  | nil => exact .done _ _
  | cons name opened ih =>
    have closes : eventOfToken (name :: opened) (.closeTag name) =
        .ok (.closed (localName name), opened) := by
      simp [eventOfToken]
    rw [endTags, List.flatMap_cons]
    exact ((Piece.closeTag (h name (by simp))).reads (by simp [Token.isText]) closes).trans
      (ih fun other hother => h other (by simp [hother]))

/-- Closing all open elements closes the root. -/
theorem openNames_closings {names : List String} {opened : List (List Char)}
    (length : names.length = opened.length) (nonempty : names ≠ []) :
    openNames names (closings opened) = none := by
  induction opened generalizing names with
  | nil => exact absurd (List.length_eq_zero_iff.1 length) nonempty
  | cons name opened ih =>
    obtain ⟨n, names, rfl⟩ := List.exists_cons_of_ne_nil nonempty
    rw [closings, List.map_cons, openNames_cons]
    cases names with
    | nil => rfl
    | cons m names => exact ih (by simpa using length) (by simp)

/-- The ends of elements hold no texts. -/
theorem unresolvedTexts_closings (names : List String) (opened : List (List Char)) :
    unresolvedTexts names (closings opened) = [] := by
  apply unresolvedTexts_eq_nil
  intro raw h
  simp [closings] at h

end ProjectFile.Markup
