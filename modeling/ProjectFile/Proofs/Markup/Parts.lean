import ProjectFile.Proofs.Markup.CutOff

/-!
# Documents in parts

A part of a document that is read on its own is read in the same way inside of other elements, and
with other parts around it.  Only a text that ends a part and one that starts the next part are
read as one text (`joinEvents`).

An element is such a part: the tag of an empty element, or a part between a start tag and its end
tag (`ReadsElement`).

## Key results

- `Reads.under`: a part is read in the same way inside of other elements
- `ReadsElement.reads`: an element leaves open what is open around it
- `Reads.join`, `eventsFrom_append`: the events of two parts, one behind the other
-/

namespace ProjectFile.Markup

variable {opened opened₁ opened₂ : List (List Char)} {s s₁ s₂ other : List Char}
  {es es' : List Event}

/-! ## Inside of other elements -/

/-- A token that can be taken with some elements open can be taken with more of them around. -/
private theorem eventOfToken_under {t : Token} {e : Event}
    (h : eventOfToken opened t = .ok (e, opened₁)) (below : List (List Char)) :
    eventOfToken (opened ++ below) t = .ok (e, opened₁ ++ below) := by
  rw [eventOfToken_eq_ok_iff] at h ⊢
  cases h <;> constructor

/-- What is read is read in the same way inside of other elements. -/
theorem Reads.under (h : Reads opened s es opened₁ s₁) (below : List (List Char)) :
    Reads (opened ++ below) s es (opened₁ ++ below) s₁ := by
  induction h with
  | done => exact .done _ _
  | event step _ ih =>
    obtain ⟨t, token, event⟩ := exists_token_of_event step
    exact .event (nextEvent_of_token token (eventOfToken_under event below)) ih

/-- A part is read in the same way with markup behind it. -/
theorem Reads.followed (h : Reads opened s es opened₁ []) (markup : StartsMarkup other) :
    Reads opened (s ++ other) es opened₁ other := by
  obtain ⟨piece, split, again⟩ := h.exists_piece
  rw [List.append_nil] at split
  exact split ▸ again other markup

/-- A piece is read on its own as the event of its token. -/
theorem Piece.reads_alone {piece : List Char} {t : Token} {e : Event} (h : Piece piece t)
    (event : eventOfToken opened t = .ok (e, opened₁)) : Reads opened piece [e] opened₁ [] := by
  have reads := h.reads (fun _ => startsMarkup_nil) event
  rwa [List.append_nil] at reads

/-! ## Elements -/

/-- A piece that is no text is markup, whatever follows it. -/
theorem Piece.startsMarkup_append {piece : List Char} {t : Token} (h : Piece piece t)
    (notText : t.isText = false) (other : List Char) : StartsMarkup (piece ++ other) := by
  intro c first
  obtain ⟨tail, eq⟩ := List.head?_eq_some_iff.1 first
  by_cases markup : c = '<'
  · exact markup
  · have token := h other fun isText => by simp [notText] at isText
    rw [eq, nextToken_text markup, Step.token.injEq] at token
    simp [← token.1, Token.isText] at notText

/-- A part of a document is one element with a local name. -/
inductive ReadsElement (name : String) : List Char → List Event → Prop
  | empty {tag full : List Char} (isTag : Piece tag (.emptyTag full))
      (named : localName full = name) : ReadsElement name tag [.empty name]
  | pair {start inner stop full : List Char} {es : List Event} (opens : Piece start (.openTag full))
      (inside : Reads [] inner es [] []) (closes : Piece stop (.closeTag full))
      (named : localName full = name) :
      ReadsElement name (start ++ (inner ++ stop)) (.opened name :: (es ++ [.closed name]))

/-- An element is read in the same way wherever it stands and whatever follows it, and leaves open
    what is open there. -/
theorem ReadsElement.reads_append {name : String} (h : ReadsElement name s es)
    (opened : List (List Char)) (other : List Char) :
    Reads opened (s ++ other) es opened other := by
  cases h with
  | empty isTag named =>
    exact isTag.reads (by simp [Token.isText]) (by simp [eventOfToken, named])
  -- The start tag, what is inside and the end tag are read one after the other.
  | @pair start inner stop full es opens inside closes named =>
    have first : Reads opened (start ++ (inner ++ (stop ++ other))) [.opened name] (full :: opened)
        (inner ++ (stop ++ other)) :=
      opens.reads (by simp [Token.isText]) (by simp [eventOfToken, named])
    have middle : Reads (full :: opened) (inner ++ (stop ++ other)) es (full :: opened)
        (stop ++ other) :=
      (inside.under (full :: opened)).followed (closes.startsMarkup_append rfl other)
    have last : Reads (full :: opened) (stop ++ other) [.closed name] opened other :=
      closes.reads (by simp [Token.isText]) (by simp [eventOfToken, named])
    rw [List.append_assoc, List.append_assoc]
    exact first.trans (middle.trans last)

/-- An element is read to its end inside of any other elements. -/
theorem ReadsElement.reads {name : String} (h : ReadsElement name s es)
    (opened : List (List Char)) : Reads opened s es opened [] := by
  have reads := h.reads_append opened []
  rwa [List.append_nil] at reads

/-- An element starts with its tag. -/
theorem ReadsElement.startsMarkup_append {name : String} (h : ReadsElement name s es)
    (other : List Char) : StartsMarkup (s ++ other) := by
  cases h with
  | empty isTag => exact isTag.startsMarkup_append rfl other
  | pair opens =>
    rw [List.append_assoc]
    exact opens.startsMarkup_append rfl _

/-! ## One part behind the other -/

/-- The events of two parts, one behind the other: a text that goes on is one text. -/
def joinEvents : List Event → List Event → List Event
  | [], es' => es'
  | [.text raw], .text raw' :: es' => .text (raw ++ raw') :: es'
  | e :: es, es' => e :: joinEvents es es'

/-- Nothing in front changes no events. -/
@[simp] theorem nil_joinEvents (es : List Event) : joinEvents [] es = es := by
  rw [joinEvents]

/-- Events are put one behind the other if the second ones do not start with a text. -/
private theorem joinEvents_of_apart {es' : List Event} (apart : ∀ raw, es'.head? ≠ some (.text raw))
    (es : List Event) : joinEvents es es' = es ++ es' := by
  fun_induction joinEvents es es' with
  | case1 => rfl
  | case2 raw raw' es' => exact absurd rfl (apart raw')
  | case3 e es es' _ ih => rw [ih apart, List.cons_append]

/-- An event that is no text stays apart from what follows. -/
private theorem joinEvents_cons {e : Event} (notText : ∀ raw, e ≠ .text raw) (es es' : List Event) :
    joinEvents (e :: es) es' = e :: joinEvents es es' := by
  rw [joinEvents]
  exact fun raw _ _ _ eq => absurd eq (notText raw)

/-- Only the last one of the first events can go on. -/
private theorem joinEvents_cons_cons (e e' : Event) (es es' : List Event) :
    joinEvents (e :: e' :: es) es' = e :: joinEvents (e' :: es) es' := by
  rw [joinEvents]
  simp

/-- A document starts with markup, or with a text that ends where markup starts. -/
private theorem startsMarkup_or_exists_text (s : List Char) :
    StartsMarkup s ∨ ∃ raw rest, raw ≠ [] ∧ (∀ c ∈ raw, c ≠ '<') ∧ s = raw ++ rest ∧
      StartsMarkup rest := by
  cases s with
  | nil => exact .inl startsMarkup_nil
  | cons c s =>
    by_cases markup : c = '<'
    · exact .inl (markup ▸ startsMarkup_cons s)
    · have inside : inText c = true := by simpa [inText] using markup
      -- The text is all that is in front of the first `<`.
      refine .inr ⟨(c :: s).takeWhile inText, (c :: s).dropWhile inText, by simp [inside], ?_,
        List.takeWhile_append_dropWhile.symm, startsMarkup_dropWhile _⟩
      intro d hd
      simpa [inText] using List.all_eq_true.1 List.all_takeWhile d hd

/-- What starts with markup gives no text. -/
private theorem isText_of_startsMarkup {t : Token} (markup : StartsMarkup s)
    (h : nextToken s = .token t other) : t.isText = false := by
  cases s with
  | nil => simp [nextToken] at h
  | cons c s =>
    obtain rfl : c = '<' := markup c rfl
    exact isText_of_markupStep h

/-- The event of a text comes from the token of that text, and opens and closes nothing. -/
private theorem eq_text_of_eventOfToken {t : Token} {raw : List Char}
    (h : eventOfToken opened t = .ok (.text raw, opened₁)) : t = .text raw ∧ opened₁ = opened := by
  cases eventOfToken_eq_ok_iff.1 h with
  | text => exact ⟨rfl, rfl⟩

/-- The first event of markup is no text. -/
theorem Reads.head?_ne_text (h : Reads opened s es opened₁ s₁) (markup : StartsMarkup s)
    (raw : List Char) : es.head? ≠ some (.text raw) := by
  cases h with
  | done => simp
  | event step _ =>
    obtain ⟨t, token, event⟩ := exists_token_of_event step
    have notText := isText_of_startsMarkup markup token
    rintro ⟨⟩
    obtain ⟨rfl, -⟩ := eq_text_of_eventOfToken event
    simp [Token.isText] at notText

/-- A text in front of markup is read as one text. -/
private theorem Reads.text {raw : List Char} (nonempty : raw ≠ []) (plain : ∀ c ∈ raw, c ≠ '<')
    (markup : StartsMarkup other) (opened : List (List Char)) :
    Reads opened (raw ++ other) [.text raw] opened other :=
  (Piece.text nonempty plain).reads (fun _ => markup) rfl

/-- A text is read together with the text that goes on behind it. -/
private theorem Reads.text_join {raw : List Char} (nonempty : raw ≠ []) (plain : ∀ c ∈ raw, c ≠ '<')
    (h : Reads opened other es opened₂ s₂) (stops : Stops opened₂ s₂) :
    Reads opened (raw ++ other) (joinEvents [.text raw] es) opened₂ s₂ := by
  rcases startsMarkup_or_exists_text other with markup | ⟨raw', rest, nonempty', plain', rfl, ends⟩
  · -- Markup follows, so the text ends where it did.
    rw [joinEvents_of_apart (h.head?_ne_text markup)]
    exact (Reads.text nonempty plain markup opened).trans h
  · -- The text that goes on is the first event of what follows.
    have first : nextEvent opened (raw' ++ rest) = .event (.text raw') opened rest :=
      nextEvent_of_token (Piece.text nonempty' plain' rest fun _ => ends) rfl
    cases h with
    | done => exact absurd first (stops _ _ _)
    | event step more =>
      rw [first, Move.event.injEq] at step
      obtain ⟨rfl, rfl, rfl⟩ := step
      have whole : ∀ c ∈ raw ++ raw', c ≠ '<' := by
        intro c hc
        rcases List.mem_append.1 hc with hc | hc
        · exact plain c hc
        · exact plain' c hc
      rw [← List.append_assoc, joinEvents]
      exact (Reads.text (by simp [nonempty]) whole ends opened).trans more

/-- Reading goes on from one part to the next. -/
theorem Reads.join (h : Reads opened s es opened₁ []) (h' : Reads opened₁ other es' opened₂ s₂)
    (stops : Stops opened₂ s₂) : Reads opened (s ++ other) (joinEvents es es') opened₂ s₂ := by
  -- The first part is read to its end; the induction follows its events.
  generalize atEnd : ([] : List Char) = rest at h
  induction h with
  | done =>
    subst atEnd
    simpa using h'
  | @event opened opened' _ s middle rest e es step more ih =>
    subst atEnd
    have later := ih h' rfl
    rcases startsMarkup_or_exists_text s with markup | ⟨raw, rest, nonempty, plain, rfl, ends⟩
    · -- Markup is read alone, whatever follows it.
      obtain ⟨t, token, event⟩ := exists_token_of_event step
      obtain ⟨piece, -, rfl, isPiece, -⟩ := exists_piece_of_token token
      have notText := isText_of_startsMarkup markup token
      have first : Reads opened (piece ++ (middle ++ other)) [e] opened' (middle ++ other) :=
        isPiece.reads (by simp [notText]) event
      have apart := (Reads.single step).head?_ne_text markup
      rw [joinEvents_cons fun raw eq => apart raw (by rw [eq]; rfl), List.append_assoc]
      exact first.trans later
    · -- A text that ends the first part is read together with the one that starts the second.
      have first : nextEvent opened (raw ++ rest) = .event (.text raw) opened rest :=
        nextEvent_of_token (Piece.text nonempty plain rest fun _ => ends) rfl
      rw [first, Move.event.injEq] at step
      obtain ⟨rfl, rfl, rfl⟩ := step
      rw [List.append_assoc]
      cases more with
      | done => exact Reads.text_join nonempty plain h' stops
      | event step' more' =>
        rw [joinEvents_cons_cons]
        refine (Reads.text nonempty plain ?_ opened).trans later
        -- An event follows, so the text ends before the first part does.
        cases rest with
        | nil => exact absurd step' (stops_nil _ _ _ _)
        | cons c rest => exact ends

/-! ## The events of a document -/

/-- The events of a document that goes on inside of open elements. -/
def eventsFrom (opened : List (List Char)) (s : List Char) : List Event :=
  (scanFrom 0 [] opened s).events

/-- What is read to where reading stops is all that there is. -/
theorem eventsFrom_of_reads (h : Reads opened s es opened₁ s₁) (stops : Stops opened₁ s₁) :
    eventsFrom opened s = es := by
  rw [eventsFrom, scanFrom_of_reads h, scanFrom_of_stops stops]
  simp

/-- Every document is read up to where reading stops. -/
theorem exists_reads_eventsFrom (opened : List (List Char)) (s : List Char) :
    ∃ opened₁ s₁, Reads opened s (eventsFrom opened s) opened₁ s₁ ∧ Stops opened₁ s₁ := by
  obtain ⟨es, reads⟩ := exists_reads_stopFrom opened s
  have stops := stops_stopFrom opened s
  rw [eventsFrom_of_reads reads stops]
  exact ⟨_, _, reads, stops⟩

/-- The events of a document are those that are read without its byte order mark. -/
theorem events_scan (content : List Char) :
    (scan content).events = eventsFrom [] (dropMark content) := by
  obtain ⟨opened, rest, reads, stops⟩ := exists_reads_eventsFrom [] (dropMark content)
  rw [scan_eq_of_reads reads stops]

/-- A document that starts with markup has no byte order mark. -/
theorem dropMark_of_startsMarkup (h : StartsMarkup s) : dropMark s = s := by
  cases s with
  | nil => rfl
  | cons c s =>
    obtain rfl : c = '<' := h c rfl
    rfl

/-- The events of a document behind a part of it follow those of the part. -/
theorem eventsFrom_append (h : Reads opened s es opened₁ []) (other : List Char) :
    eventsFrom opened (s ++ other) = joinEvents es (eventsFrom opened₁ other) := by
  obtain ⟨opened₂, rest, reads, stops⟩ := exists_reads_eventsFrom opened₁ other
  exact eventsFrom_of_reads (h.join reads stops) stops

end ProjectFile.Markup
