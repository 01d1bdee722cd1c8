import ProjectFile.Proofs.Markup.Piece

/-!
# Reading a part of a document

`Reads opened s es opened' rest` says that the events `es` are taken off the front of `s`, one
after the other, and leave `rest`; the elements named by `opened` are open before them, and those
named by `opened'` after them, innermost first.

Every document is read as far as its end or its first fault (`reads_stop`), and what is read of it
is read in the same way with anything else behind it (`Reads.exists_piece`).

## Key results

- `scan_eq_of_reads`: what is read to the end is the scan of the document
- `reads_stop`: the events of a document are read up to where it stops
- `Reads.exists_piece`: a part of a document reads the same with anything else behind it
-/

namespace ProjectFile.Markup

open ProjectFile.Text

/-- The events `es` are taken off the front of a document. -/
inductive Reads : List (List Char) → List Char → List Event → List (List Char) → List Char → Prop
  | done (opened : List (List Char)) (s : List Char) : Reads opened s [] opened s
  | event {opened opened₁ opened₂ : List (List Char)} {s s₁ s₂ : List Char} {e : Event}
      {es : List Event} (h : nextEvent opened s = .event e opened₁ s₁)
      (rest : Reads opened₁ s₁ es opened₂ s₂) : Reads opened s (e :: es) opened₂ s₂

/-- Reading goes on where it stopped. -/
theorem Reads.trans {opened opened₁ opened₂ : List (List Char)} {s s₁ s₂ : List Char}
    {es es' : List Event} (h : Reads opened s es opened₁ s₁)
    (h' : Reads opened₁ s₁ es' opened₂ s₂) : Reads opened s (es ++ es') opened₂ s₂ := by
  induction h with
  | done => exact h'
  | event step _ ih => exact .event step (ih h')

/-- One event is read on its own. -/
theorem Reads.single {opened opened₁ : List (List Char)} {s s₁ : List Char} {e : Event}
    (h : nextEvent opened s = .event e opened₁ s₁) : Reads opened s [e] opened₁ s₁ :=
  .event h (.done _ _)

/-! ## Tokens as events -/

/-- What a token comes to where the elements named by `opened` are open: its event, and which
    elements are open behind it.  An end tag is that of the innermost element. -/
inductive Nests : List (List Char) → Token → Event → List (List Char) → Prop
  | openTag (opened : List (List Char)) (name : List Char) :
      Nests opened (.openTag name) (.opened (localName name)) (name :: opened)
  | emptyTag (opened : List (List Char)) (name : List Char) :
      Nests opened (.emptyTag name) (.empty (localName name)) opened
  | closeTag (outer : List (List Char)) (name : List Char) :
      Nests (name :: outer) (.closeTag name) (.closed (localName name)) outer
  | text (opened : List (List Char)) (raw : List Char) : Nests opened (.text raw) (.text raw) opened
  | data (opened : List (List Char)) (content : List Char) :
      Nests opened (.data content) (.data content) opened
  | aside (opened : List (List Char)) : Nests opened .aside .aside opened

/-- The event of a token, and what is open behind it, are given kind by kind by `Nests`. -/
theorem eventOfToken_eq_ok_iff {opened opened' : List (List Char)} {t : Token} {e : Event} :
    eventOfToken opened t = .ok (e, opened') ↔ Nests opened t e opened' := by
  constructor
  · intro h
    cases t with
    -- Only an end tag can fail: there has to be an innermost element, with the same name.
    | closeTag name =>
      cases opened with
      | nil => simp [eventOfToken] at h
      | cons innermost outer =>
        simp only [eventOfToken] at h
        split at h
        · rename_i same
          cases h
          exact same ▸ .closeTag _ name
        · simp at h
    | _ =>
      cases h
      constructor
  · intro h
    cases h with
    | closeTag outer name => simp [eventOfToken]
    | _ => rfl

/-- A token that can be taken gives the next event. -/
theorem nextEvent_of_token {opened opened' : List (List Char)} {s rest : List Char} {t : Token}
    {e : Event} (h : nextToken s = .token t rest)
    (event : eventOfToken opened t = .ok (e, opened')) :
    nextEvent opened s = .event e opened' rest := by
  simp only [nextEvent, h, event]

/-- An event comes from a token. -/
theorem exists_token_of_event {opened opened' : List (List Char)} {s rest : List Char} {e : Event}
    (h : nextEvent opened s = .event e opened' rest) :
    ∃ t, nextToken s = .token t rest ∧ eventOfToken opened t = .ok (e, opened') := by
  unfold nextEvent at h
  split at h
  · simp at h
  · simp at h
  · rename_i t tail token
    split at h
    · rename_i e' opened'' eq
      simp only [Move.event.injEq] at h
      obtain ⟨rfl, rfl, rfl⟩ := h
      exact ⟨t, token, eq⟩
    · simp at h

/-- A piece of a document reads as the event of its token. -/
theorem Piece.reads {piece other : List Char} {t : Token} {opened opened' : List (List Char)}
    {e : Event} (h : Piece piece t) (ends : t.isText = true → StartsMarkup other)
    (event : eventOfToken opened t = .ok (e, opened')) :
    Reads opened (piece ++ other) [e] opened' other :=
  Reads.single (nextEvent_of_token (h other ends) event)

/-! ## Where a document stops -/

/-- The elements that are open where a document ends or breaks off, innermost first, and what
    follows: the token that fails, and all behind it. -/
def stopFrom (opened : List (List Char)) (s : List Char) : List (List Char) × List Char :=
  match _h : nextEvent opened s with
  | .event _ opened rest => stopFrom opened rest
  | _ => (opened, s)
termination_by s.length
decreasing_by exact length_rest_lt_of_event _h

/-- Where a document stops. -/
def stop (content : List Char) : List (List Char) × List Char :=
  stopFrom [] (dropMark content)

/-- How a document goes on where no event follows. -/
def endingAt (size : Nat) (opened : List (List Char)) (s : List Char) : Ending :=
  match nextEvent opened s with
  | .fault f rest => .broken (size - byteLength rest) f
  | _ => .finished

/-- Whether a document stops: no event follows. -/
def Stops (opened : List (List Char)) (s : List Char) : Prop :=
  ∀ e opened' rest, nextEvent opened s ≠ .event e opened' rest

/-- Reading stops at the end of a document. -/
theorem stops_nil (opened : List (List Char)) : Stops opened [] := by
  intro e opened' rest h
  simp [nextEvent, nextToken] at h

/-- Scanning goes on behind what is read. -/
theorem scanFrom_of_reads {opened opened' : List (List Char)} {s rest : List Char}
    {es : List Event} (h : Reads opened s es opened' rest) (size : Nat) (seen : List Event) :
    scanFrom size seen opened s = scanFrom size (es.reverse ++ seen) opened' rest := by
  -- Events are seen latest first, so each one is put before those that are seen already.
  induction h generalizing seen with
  | done => rfl
  | event step _ ih =>
    rw [scanFrom]
    split
    · rename_i eq
      simp [step] at eq
    · rename_i eq
      simp [step] at eq
    · rename_i e opened₁ s₁ eq
      rw [step] at eq
      simp only [Move.event.injEq] at eq
      obtain ⟨rfl, rfl, rfl⟩ := eq
      rw [ih]
      simp

/-- Where reading stops, the scan ends with what was seen. -/
theorem scanFrom_of_stops {opened : List (List Char)} {s : List Char} (h : Stops opened s)
    (size : Nat) (seen : List Event) :
    scanFrom size seen opened s = ⟨seen.reverse, endingAt size opened s⟩ := by
  rw [scanFrom]
  split
  · rename_i eq
    simp [endingAt, eq]
  · rename_i eq
    simp [endingAt, eq]
  · -- An event would be read, against `h`.
    rename_i eq
    exact absurd eq (h _ _ _)

/-- What is read of a document up to where it stops is its scan. -/
theorem scan_eq_of_reads {content rest : List Char} {opened : List (List Char)}
    {es : List Event} (h : Reads [] (dropMark content) es opened rest) (stops : Stops opened rest) :
    scan content = ⟨es, endingAt (byteLength (dropMark content)) opened rest⟩ := by
  unfold scan
  rw [scanFrom_of_reads h, scanFrom_of_stops stops]
  simp

/-- Reading stops where `stopFrom` says. -/
theorem stops_stopFrom (opened : List (List Char)) (s : List Char) :
    Stops (stopFrom opened s).1 (stopFrom opened s).2 := by
  fun_induction stopFrom opened s with
  | case1 opened s e opened' rest step ih => exact ih
  | case2 opened s noEvent => exact fun e opened' rest => noEvent e opened' rest

/-- Some events are read up to there. -/
theorem exists_reads_stopFrom (opened : List (List Char)) (s : List Char) :
    ∃ es, Reads opened s es (stopFrom opened s).1 (stopFrom opened s).2 := by
  fun_induction stopFrom opened s with
  | case1 opened s e opened' rest step ih =>
    obtain ⟨es, reads⟩ := ih
    exact ⟨e :: es, .event step reads⟩
  | case2 opened s noEvent => exact ⟨[], .done _ _⟩

/-- The events of a document are read up to where it stops. -/
theorem reads_stop (content : List Char) :
    Reads [] (dropMark content) (scan content).events (stop content).1 (stop content).2 := by
  obtain ⟨es, reads⟩ := exists_reads_stopFrom [] (dropMark content)
  -- There are no other events than those of the scan.
  rw [scan_eq_of_reads reads (stops_stopFrom _ _)]
  exact reads

/-! ## A part of a document -/

/-- What is read of a document is read in the same way with anything else behind it, if that is
    markup. -/
theorem Reads.exists_piece {opened opened' : List (List Char)} {s rest : List Char}
    {es : List Event} (h : Reads opened s es opened' rest) :
    ∃ piece, s = piece ++ rest ∧
      ∀ other, StartsMarkup other → Reads opened (piece ++ other) es opened' other := by
  induction h with
  | done => exact ⟨[], rfl, fun other _ => .done _ _⟩
  | event step _ ih =>
    obtain ⟨t, token, event⟩ := exists_token_of_event step
    -- The piece of the first event stands in front of the piece of the later ones.
    obtain ⟨front, -, rfl, piece, ends⟩ := exists_piece_of_token token
    obtain ⟨back, rfl, again⟩ := ih
    refine ⟨front ++ back, by simp, fun other markup => ?_⟩
    rw [List.append_assoc]
    refine (piece.reads (fun isText => ?_) event).trans (again other markup)
    -- What follows a text starts as it did, or is what follows it all.
    cases back with
    | nil => exact markup
    | cons c back => exact ends isText

end ProjectFile.Markup
