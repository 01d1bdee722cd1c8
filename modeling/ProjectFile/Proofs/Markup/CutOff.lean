import ProjectFile.Proofs.Markup.Reads

/-!
# A document that is cut off

What is read of a document is read of every longer document that starts with it; only a text at
the very end may run on.  So a document that is cut off somewhere has the events of the whole
document up to there, and behind them at most a part of a text (`CutOff`).

## Key results

- `Reads.extend`: what is read stays the same with more behind the document
- `Reads.drop`: there is only one way to go on behind what is read
- `cutOff_scan`: the events of a document that is cut off
-/

namespace ProjectFile.Markup

variable {opened opened₁ opened₂ : List (List Char)} {s s₁ s₂ : List Char} {es full : List Event}

/-! ## Going on behind what is read -/

/-- Nothing is read of an empty document. -/
private theorem Reads.of_nil (h : Reads opened [] es opened₁ s₁) : es = [] ∧ s₁ = [] := by
  cases h with
  | done => exact ⟨rfl, rfl⟩
  | event step _ => exact absurd step (stops_nil opened _ _ _)

/-- What is read first leaves the document from which the later events are read. -/
theorem Reads.drop {more : List Event} (h : Reads opened s es opened₁ s₁)
    (all : Reads opened s (es ++ more) opened₂ s₂) : Reads opened₁ s₁ more opened₂ s₂ := by
  induction h with
  | done => exact all
  | event step _ ih =>
    cases all with
    | event step' rest =>
      rw [step] at step'
      cases step'
      exact ih rest

/-- The events that are read tell what is left of the document. -/
theorem Reads.rest_eq (h : Reads opened s es opened₁ s₁) (h' : Reads opened s es opened₂ s₂) :
    s₁ = s₂ := by
  rw [← List.append_nil es] at h'
  cases h.drop h'
  rfl

/-- A part of the events leaves one rest of the document. -/
theorem Reads.split {more : List Event} (h : Reads opened s (es ++ more) opened₂ s₂) :
    ∃ opened₁ s₁, Reads opened s es opened₁ s₁ ∧ Reads opened₁ s₁ more opened₂ s₂ := by
  induction es generalizing opened s with
  | nil => exact ⟨opened, s, .done _ _, h⟩
  | cons e es ih =>
    cases h with
    | event step rest =>
      obtain ⟨opened₁, s₁, first, later⟩ := ih rest
      exact ⟨opened₁, s₁, .event step first, later⟩

/-- The events of a whole document go on behind those that are read of it. -/
theorem Reads.exists_more (h : Reads opened s es opened₁ s₁)
    (all : Reads opened s full opened₂ s₂) (stops : Stops opened₂ s₂) :
    ∃ more, full = es ++ more ∧ Reads opened₁ s₁ more opened₂ s₂ := by
  -- The induction follows what is read; the whole document takes the same steps as long as it
  -- lasts.
  induction h generalizing full with
  | done => exact ⟨full, rfl, all⟩
  | event step _ ih =>
    cases all with
    | done => exact absurd step (stops _ _ _)
    | event step' rest =>
      rw [step] at step'
      cases step'
      obtain ⟨more, rfl, later⟩ := ih rest
      exact ⟨more, rfl, later⟩

/-! ## Longer documents -/

/-- Whether the last one of some events is a text. -/
def EndsInText (es : List Event) : Prop :=
  ∃ es' raw, es = es' ++ [.text raw]

/-- An event in front does not change how events end. -/
private theorem EndsInText.cons {e : Event} (h : EndsInText es) : EndsInText (e :: es) := by
  obtain ⟨es', raw, rfl⟩ := h
  exact ⟨e :: es', raw, rfl⟩

/-- The token of a text gives the event of a text. -/
private theorem exists_raw_of_isText {t : Token} {e : Event} (isText : t.isText = true)
    (event : eventOfToken opened t = .ok (e, opened₁)) : ∃ raw, e = .text raw := by
  cases eventOfToken_eq_ok_iff.1 event with
  | text _ raw => exact ⟨raw, rfl⟩
  | _ => simp [Token.isText] at isText

/-- What is read of a document is read in the same way with more behind the document.  A text at
    the end of the document would run on. -/
theorem Reads.extend (h : Reads opened s es opened₁ s₁) (tail : List Char)
    (stays : s₁ = [] → ¬ EndsInText es) : Reads opened (s ++ tail) es opened₁ (s₁ ++ tail) := by
  -- Each event comes from a piece, and what follows the piece starts in the same way as before.
  induction h with
  | done => exact .done _ _
  | @event opened _ _ s middle rest e es step more ih =>
    obtain ⟨t, token, event⟩ := exists_token_of_event step
    obtain ⟨piece, -, rfl, isPiece, ends⟩ := exists_piece_of_token token
    have follows : t.isText = true → StartsMarkup (middle ++ tail) := by
      intro isText
      cases middle with
      | nil =>
        obtain ⟨rfl, rfl⟩ := more.of_nil
        obtain ⟨raw, rfl⟩ := exists_raw_of_isText isText event
        exact absurd ⟨[], raw, rfl⟩ (stays rfl)
      | cons c middle => exact ends isText
    rw [List.append_assoc]
    exact .event (nextEvent_of_token (isPiece _ follows) event)
      (ih fun empty inText => stays empty inText.cons)

/-! ## The events of a document that is cut off -/

/-- The events of a document that is cut off: some of those of the whole document, from the first
    one on, and then perhaps a part of a text. -/
def CutOff (es full : List Event) : Prop :=
  ∃ whole part, es = whole ++ part ∧ whole <+: full ∧ (part = [] ∨ ∃ raw, part = [.text raw])

/-- Events that are cut off before or behind one of them. -/
theorem CutOff.split {first later : List Event} {e : Event}
    (h : CutOff es (first ++ e :: later)) :
    CutOff es first ∨ ∃ es', es = first ++ e :: es' ∧ CutOff es' later := by
  obtain ⟨whole, part, rfl, ⟨more, within⟩, text⟩ := h
  -- What is whole ends within the first events, or goes on behind them with `e`.
  rcases List.append_eq_append_iff.1 within with ⟨back, rfl, -⟩ | ⟨back, rfl, behind⟩
  · exact .inl ⟨whole, part, rfl, List.prefix_append _ _, text⟩
  · cases back with
    | nil => exact .inl ⟨first, part, by rw [List.append_nil], List.prefix_rfl, text⟩
    | cons e' back =>
      rw [List.cons_append, List.cons.injEq] at behind
      obtain ⟨rfl, rfl⟩ := behind
      -- The event `e` is among what is whole, and a part of a text can only stand behind it.
      exact .inr ⟨back ++ part, by simp, back, part, rfl, List.prefix_append _ _, text⟩

/-- All that is left of texts are texts. -/
theorem CutOff.texts (h : CutOff es full) (texts : ∀ e ∈ full, ∃ raw, e = .text raw) :
    ∀ e ∈ es, ∃ raw, e = .text raw := by
  obtain ⟨whole, part, rfl, within, text⟩ := h
  intro e he
  rcases List.mem_append.1 he with he | he
  · exact texts e (within.subset he)
  · rcases text with rfl | ⟨raw, rfl⟩
    · simp at he
    · exact ⟨raw, List.mem_singleton.1 he⟩

/-- What is read of a document that is cut off somewhere is a part of what is read of all of it. -/
theorem Reads.cutOff {tail : List Char} (h : Reads opened s es opened₁ s₁)
    (all : Reads opened (s ++ tail) full opened₂ s₂) (stops : Stops opened₂ s₂) :
    CutOff es full := by
  by_cases runsOn : s₁ = [] ∧ EndsInText es
  · -- All but the last text is read of the longer document.
    obtain ⟨rfl, es', raw, rfl⟩ := runsOn
    obtain ⟨opened', middle, first, last⟩ := h.split
    have nonempty : middle ≠ [] := by
      rintro rfl
      simpa using last.of_nil
    have longer := first.extend tail fun empty => absurd empty nonempty
    obtain ⟨more, rfl, -⟩ := longer.exists_more all stops
    exact ⟨es', [.text raw], rfl, List.prefix_append _ _, .inr ⟨raw, rfl⟩⟩
  · -- No text runs on, so all that is read is read of the longer document.
    have longer := h.extend tail fun empty inText => runsOn ⟨empty, inText⟩
    obtain ⟨more, rfl, -⟩ := longer.exists_more all stops
    exact ⟨es, [], (List.append_nil _).symm, List.prefix_append _ _, .inl rfl⟩

/-- A byte order mark can only stand at the start of a document. -/
private theorem dropMark_append {front : List Char} (nonempty : front ≠ []) (tail : List Char) :
    dropMark (front ++ tail) = dropMark front ++ tail := by
  obtain ⟨c, front, rfl⟩ := List.exists_cons_of_ne_nil nonempty
  by_cases mark : c = '\ufeff'
  · subst mark
    rfl
  · rw [List.cons_append]
    unfold dropMark
    split <;> split <;> simp_all

/-- A document that is cut off has the events of the whole document up to where it is cut, and
    then perhaps a part of a text. -/
theorem cutOff_scan (front tail : List Char) :
    CutOff (scan front).events (scan (front ++ tail)).events := by
  have whole := reads_stop (front ++ tail)
  have stops : Stops (stop (front ++ tail)).1 (stop (front ++ tail)).2 := stops_stopFrom _ _
  by_cases empty : front = []
  · subst empty
    have nothing : (scan []).events = [] := (reads_stop []).of_nil.1
    rw [nothing]
    exact ⟨[], [], rfl, List.nil_prefix, .inl rfl⟩
  · rw [dropMark_append empty] at whole
    exact (reads_stop front).cutOff whole stops

end ProjectFile.Markup
