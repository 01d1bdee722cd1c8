import ProjectFile.Markup.Event

/-!
# Pieces of a document

A token is decided by the characters that it takes off the front of a document: with anything
else behind them, the same characters give the same token.  Only a text looks further, to the
`<` at which it ends.

## Key results

- `exists_piece_of_token`: a token comes from a piece at the front of the document
- `Piece.openTag`, `Piece.closeTag`, `Piece.text`: the pieces that tags and texts are written as
-/

namespace ProjectFile.Markup

/-- Whether no text goes on at the start of `s`: it is empty, or starts with markup. -/
def StartsMarkup (s : List Char) : Prop :=
  ∀ c, s.head? = some c → c = '<'

/-- No text goes on at the end of a document. -/
theorem startsMarkup_nil : StartsMarkup [] := by
  intro c h
  simp at h

/-- No text goes on in front of a `<`. -/
theorem startsMarkup_cons (s : List Char) : StartsMarkup ('<' :: s) := by
  intro c h
  simp only [List.head?_cons, Option.some.injEq] at h
  exact h.symm

/-- Whether a token is a text. -/
def Token.isText : Token → Bool
  | .text _ => true
  | _ => false

/-- A piece of a document gives a token, whatever follows it.  A text may not run on. -/
def Piece (piece : List Char) (t : Token) : Prop :=
  ∀ other, (t.isText = true → StartsMarkup other) → nextToken (piece ++ other) = .token t other

/-! ## Finding the end of a piece -/

/-- Whether a mark stands at the start is decided by as many characters as the mark has. -/
private theorem isPrefixOf_append_of_length {mark s : List Char} (h : mark.length ≤ s.length)
    (other : List Char) : mark.isPrefixOf (s ++ other) = mark.isPrefixOf s := by
  -- The mark and the text are compared one character at a time.
  induction mark generalizing s with
  | nil => simp
  | cons m mark ih =>
    cases s with
    | nil => simp at h
    | cons c s =>
      simp only [List.length_cons] at h
      simp only [List.cons_append, List.isPrefixOf_cons_cons, ih (s := s) (by omega)]

/-- What is before the first occurrence of a mark does not depend on what is after it. -/
theorem cutAt_append {mark s before after : List Char} (nonempty : mark ≠ [])
    (h : cutAt mark s = some (before, after)) :
    s = before ++ (mark ++ after) ∧
      ∀ other, cutAt mark (before ++ (mark ++ other)) = some (before, other) := by
  -- Induction on the document: what is before the mark is cut one character at a time.
  induction s generalizing before with
  | nil => simp [cutAt] at h
  | cons c rest ih =>
    rw [cutAt] at h
    split at h
    · -- The mark stands here, and nothing is before it.
      rename_i found
      simp only [Option.some.injEq, Prod.mk.injEq] at h
      obtain ⟨rfl, rfl⟩ := h
      obtain ⟨tail, eq⟩ := List.isPrefixOf_iff_prefix.1 found
      refine ⟨by rw [← eq]; simp, fun other => ?_⟩
      obtain ⟨m, mark', rfl⟩ := List.exists_cons_of_ne_nil nonempty
      simp [cutAt]
    · rename_i notFound
      obtain ⟨⟨b, a⟩, found, eq⟩ := Option.map_eq_some_iff.1 h
      simp only [Prod.mk.injEq] at eq
      obtain ⟨rfl, rfl⟩ := eq
      obtain ⟨split, again⟩ := ih found
      refine ⟨by rw [List.cons_append, ← split], fun other => ?_⟩
      -- A match that starts before the mark would end before the mark does.
      have short : mark.length ≤ (c :: (b ++ mark)).length := by
        simp only [List.length_cons, List.length_append]
        omega
      have stays : ∀ x, mark.isPrefixOf (c :: (b ++ (mark ++ x))) =
          mark.isPrefixOf (c :: (b ++ mark)) := by
        intro x
        rw [← isPrefixOf_append_of_length short x]
        simp
      rw [split, stays] at notFound
      rw [List.cons_append, cutAt, stays, if_neg notFound, again]
      rfl

/-- Where a tag ends does not depend on what is after it. -/
private theorem cutTag_append {quote? : Option Char} {s content after : List Char}
    (h : cutTag quote? s = some (content, after)) :
    s = content ++ '>' :: after ∧
      ∀ other, cutTag quote? (content ++ '>' :: other) = some (content, other) := by
  induction s generalizing quote? content with
  | nil => simp [cutTag] at h
  | cons c rest ih =>
    -- Whichever quote is open after `c`, the rest is cut in the same way.
    have deeper : ∀ q, (cutTag q rest).map (fun x => (c :: x.1, x.2)) = some (content, after) →
        ∃ inner, content = c :: inner ∧ rest = inner ++ '>' :: after ∧
          ∀ other, cutTag q (inner ++ '>' :: other) = some (inner, other) := by
      intro q hq
      obtain ⟨⟨b, a⟩, found, eq⟩ := Option.map_eq_some_iff.1 hq
      simp only [Prod.mk.injEq] at eq
      obtain ⟨rfl, rfl⟩ := eq
      obtain ⟨split, again⟩ := ih found
      exact ⟨b, rfl, split, again⟩
    cases quote? with
    -- Inside of quotes no character ends the tag.
    | some q =>
      obtain ⟨inner, rfl, split, again⟩ := deeper _ h
      refine ⟨by rw [split]; rfl, fun other => ?_⟩
      simp only [List.cons_append, cutTag, again, Option.map_some]
    -- Outside of quotes the first `>` ends it.
    | none =>
      simp only [cutTag] at h
      split at h
      · rename_i isEnd
        simp only [Option.some.injEq, Prod.mk.injEq] at h
        obtain ⟨rfl, rfl⟩ := h
        exact ⟨by rw [isEnd]; rfl, fun other => by simp [cutTag]⟩
      · rename_i notEnd
        obtain ⟨inner, rfl, split, again⟩ := deeper _ h
        refine ⟨by rw [split]; rfl, fun other => ?_⟩
        simp only [List.cons_append, cutTag, if_neg notEnd, again, Option.map_some]

/-- Where a declaration ends does not depend on what is after it. -/
theorem cutBalanced_append {depth : Nat} {s content after : List Char}
    (h : cutBalanced depth s = some (content, after)) :
    s = content ++ '>' :: after ∧
      ∀ other, cutBalanced depth (content ++ '>' :: other) = some (content, other) := by
  induction s generalizing depth content with
  | nil => simp [cutBalanced] at h
  | cons c rest ih =>
    -- However many brackets are open behind `c`, the rest is cut in the same way.
    have deeper : ∀ d, (cutBalanced d rest).map (fun x => (c :: x.1, x.2)) =
        some (content, after) →
        ∃ inner, content = c :: inner ∧ rest = inner ++ '>' :: after ∧
          ∀ other, cutBalanced d (inner ++ '>' :: other) = some (inner, other) := by
      intro d hd
      obtain ⟨⟨b, a⟩, found, eq⟩ := Option.map_eq_some_iff.1 hd
      simp only [Prod.mk.injEq] at eq
      obtain ⟨rfl, rfl⟩ := eq
      obtain ⟨split, again⟩ := ih found
      exact ⟨b, rfl, split, again⟩
    simp only [cutBalanced] at h
    split at h
    · rename_i opens
      obtain ⟨inner, rfl, split, again⟩ := deeper _ h
      refine ⟨by rw [split]; rfl, fun other => ?_⟩
      simp only [List.cons_append, cutBalanced, if_pos opens, again, Option.map_some]
    · rename_i notOpens
      -- A `>` ends the declaration only if no bracket is open.
      split at h
      · rename_i closes
        split at h
        · simp only [Option.some.injEq, Prod.mk.injEq] at h
          obtain ⟨rfl, rfl⟩ := h
          exact ⟨by rw [closes]; rfl, fun other => by simp [cutBalanced]⟩
        · obtain ⟨inner, rfl, split, again⟩ := deeper _ h
          refine ⟨by rw [split]; rfl, fun other => ?_⟩
          simp only [List.cons_append, cutBalanced, if_neg notOpens, if_pos closes, again,
            Option.map_some]
      · rename_i notCloses
        obtain ⟨inner, rfl, split, again⟩ := deeper _ h
        refine ⟨by rw [split]; rfl, fun other => ?_⟩
        simp only [List.cons_append, cutBalanced, if_neg notOpens, if_neg notCloses, again,
          Option.map_some]

/-! ## One piece of markup -/

/-- Whether a reader of markup takes the token `t` off the front of `s`, and would take it off
    the same characters with anything else behind them. -/
def Takes (f : List Char → Step) (s : List Char) (t : Token) (rest : List Char) : Prop :=
  ∃ piece, piece ≠ [] ∧ s = piece ++ rest ∧ ∀ other, f (piece ++ other) = .token t other

/-- A comment ends with the first mark behind its second dash. -/
private theorem takes_commentStep {s rest : List Char} {t : Token}
    (h : commentStep s = .token t rest) : Takes commentStep s t rest := by
  unfold commentStep at h
  split at h
  · simp at h
  · rename_i before after found
    split at h
    · rename_i dash
      simp only [Step.token.injEq] at h
      obtain ⟨rfl, rfl⟩ := h
      cases s with
      | nil => simp at dash
      | cons c tail =>
        -- The end is looked for behind the dash, which is a part of the piece.
        obtain ⟨split, again⟩ := cutAt_append (by simp) found
        rw [List.drop_one, List.tail_cons] at split
        refine ⟨c :: (before ++ "-->".toList), by simp, by rw [split]; simp, fun other => ?_⟩
        have cut : cutAt "-->".toList (((c :: (before ++ "-->".toList)) ++ other).drop 1) =
            some (before, other) := by
          simpa using again other
        rw [List.head?_cons] at dash
        unfold commentStep
        rw [cut]
        exact if_pos dash
    · simp at h

/-- A CDATA section ends with its first mark. -/
private theorem takes_dataStep {s rest : List Char} {t : Token} (h : dataStep s = .token t rest) :
    Takes dataStep s t rest := by
  unfold dataStep at h
  split at h
  · simp at h
  · rename_i before after found
    split at h
    · rename_i keyword
      simp only [Step.token.injEq] at h
      obtain ⟨rfl, rfl⟩ := h
      obtain ⟨split, again⟩ := cutAt_append (by simp) found
      refine ⟨before ++ "]]>".toList, by simp, by rw [split]; simp, fun other => ?_⟩
      simp only [dataStep, List.append_assoc, again, if_pos keyword]
    · simp at h

/-- A declaration of the document type ends with the `>` outside of its brackets. -/
private theorem takes_doctypeStep {s rest : List Char} {t : Token}
    (h : doctypeStep s = .token t rest) : Takes doctypeStep s t rest := by
  unfold doctypeStep at h
  split at h
  · simp at h
  · rename_i before after found
    split at h
    · rename_i keyword
      split at h
      · simp at h
      · rename_i named
        simp only [Step.token.injEq] at h
        obtain ⟨rfl, rfl⟩ := h
        -- With other text behind it, the declaration ends at the same place.
        obtain ⟨split, again⟩ := cutBalanced_append found
        refine ⟨before ++ ['>'], by simp, by rw [split]; simp, fun other => ?_⟩
        simp only [doctypeStep, List.append_assoc, List.singleton_append, again, if_pos keyword,
          if_neg named]
    · simp at h

/-- An instruction ends with its first mark, which has a question mark of its own. -/
private theorem takes_instructionStep {s rest : List Char} {t : Token}
    (h : instructionStep s = .token t rest) : Takes instructionStep s t rest := by
  unfold instructionStep at h
  split at h
  · simp at h
  · rename_i before after found
    split at h
    · simp at h
    · rename_i nonempty
      simp only [Step.token.injEq] at h
      obtain ⟨rfl, rfl⟩ := h
      obtain ⟨split, again⟩ := cutAt_append (by simp) found
      -- The piece starts behind the `?` that was put before it.
      obtain ⟨q, before, rfl⟩ := List.exists_cons_of_ne_nil nonempty
      simp only [List.cons_append, List.cons.injEq] at split
      obtain ⟨rfl, split⟩ := split
      refine ⟨before ++ "?>".toList, by simp, by rw [split]; simp, fun other => ?_⟩
      have cut : cutAt "?>".toList ('?' :: (before ++ "?>".toList ++ other)) =
          some ('?' :: before, other) := by
        simpa using again other
      simp only [instructionStep, cut, if_neg nonempty]

/-- An end tag ends with its `>`. -/
private theorem takes_endTagStep {s rest : List Char} {t : Token}
    (h : endTagStep s = .token t rest) : Takes endTagStep s t rest := by
  unfold endTagStep at h
  split at h
  · simp at h
  · rename_i content after found
    simp only [Step.token.injEq] at h
    obtain ⟨rfl, rfl⟩ := h
    obtain ⟨split, again⟩ := cutTag_append found
    refine ⟨content ++ ['>'], by simp, by rw [split]; simp, fun other => ?_⟩
    simp only [endTagStep, List.append_assoc, List.singleton_append, again]

/-- A start tag ends with its `>`. -/
private theorem takes_startTagStep {s rest : List Char} {t : Token}
    (h : startTagStep s = .token t rest) : Takes startTagStep s t rest := by
  unfold startTagStep at h
  split at h
  · simp at h
  · rename_i content after found
    simp only [Step.token.injEq] at h
    obtain ⟨rfl, rfl⟩ := h
    obtain ⟨split, again⟩ := cutTag_append found
    refine ⟨content ++ ['>'], by simp, by rw [split]; simp, fun other => ?_⟩
    simp only [startTagStep, List.append_assoc, List.singleton_append, again]

/-- A piece of markup that starts with none of the marks of the other kinds is a start tag. -/
private theorem markupStep_eq_startTagStep {c : Char} (bang : c ≠ '!') (question : c ≠ '?')
    (slash : c ≠ '/') (rest : List Char) : markupStep (c :: rest) = startTagStep (c :: rest) := by
  unfold markupStep
  split <;> simp_all

/-- What one reader takes, another takes that reads the same behind a few characters. -/
private theorem Takes.prepend {f g : List Char → Step} {s rest : List Char} {t : Token}
    (front : List Char) (same : ∀ s, g (front ++ s) = f s) (h : Takes f s t rest) :
    Takes g (front ++ s) t rest := by
  obtain ⟨piece, nonempty, rfl, again⟩ := h
  refine ⟨front ++ piece, by simp [nonempty], by simp, fun other => ?_⟩
  rw [List.append_assoc, same, again]

/-- The first character of a document is the first one of what is taken off it. -/
private theorem Takes.first {f : List Char → Step} {c : Char} {s rest : List Char} {t : Token}
    (h : Takes f (c :: s) t rest) :
    ∃ piece, s = piece ++ rest ∧ ∀ other, f (c :: (piece ++ other)) = .token t other := by
  obtain ⟨piece, nonempty, split, again⟩ := h
  obtain ⟨d, piece, rfl⟩ := List.exists_cons_of_ne_nil nonempty
  simp only [List.cons_append, List.cons.injEq] at split
  obtain ⟨rfl, rfl⟩ := split
  exact ⟨piece, rfl, again⟩

/-- Whatever kind of markup follows a `<`, it is decided by the characters that it takes. -/
private theorem takes_markupStep {s rest : List Char} {t : Token}
    (h : markupStep s = .token t rest) : Takes markupStep s t rest := by
  unfold markupStep at h
  split at h
  · simp at h
  · -- Each kind is told by its first characters, which are put in front of what its own reader
    -- takes.
    exact (takes_commentStep h).prepend ['!', '-'] fun _ => rfl
  · exact (takes_dataStep h).prepend ['!', '['] fun _ => rfl
  · obtain ⟨piece, rfl, again⟩ := (takes_doctypeStep h).first
    exact ⟨'!' :: 'D' :: piece, by simp, by simp, again⟩
  · obtain ⟨piece, rfl, again⟩ := (takes_doctypeStep h).first
    exact ⟨'!' :: 'd' :: piece, by simp, by simp, again⟩
  · simp at h
  · exact (takes_instructionStep h).prepend ['?'] fun _ => rfl
  · exact (takes_endTagStep h).prepend ['/'] fun _ => rfl
  · rename_i nonempty _ _ _ _ notBang notQuestion notSlash
    -- A start tag: the first character of its piece rules out the other kinds again.
    obtain ⟨c, tail, rfl⟩ := List.exists_cons_of_ne_nil nonempty
    obtain ⟨piece, rfl, again⟩ := (takes_startTagStep h).first
    refine ⟨c :: piece, by simp, by simp, fun other => ?_⟩
    have bang : c ≠ '!' := by
      rintro rfl
      exact notBang _ rfl
    have question : c ≠ '?' := by
      rintro rfl
      exact notQuestion _ rfl
    have slash : c ≠ '/' := by
      rintro rfl
      exact notSlash _ rfl
    rw [List.cons_append, markupStep_eq_startTagStep bang question slash]
    exact again other

/-- A comment is set aside. -/
private theorem eq_aside_of_commentStep {s rest : List Char} {t : Token}
    (h : commentStep s = .token t rest) : t = .aside := by
  unfold commentStep at h
  split at h
  · simp at h
  · split at h
    · simp only [Step.token.injEq] at h
      exact h.1.symm
    · simp at h

/-- A declaration is set aside. -/
private theorem eq_aside_of_doctypeStep {s rest : List Char} {t : Token}
    (h : doctypeStep s = .token t rest) : t = .aside := by
  unfold doctypeStep at h
  split at h
  · simp at h
  · split at h
    · split at h
      · simp at h
      · simp only [Step.token.injEq] at h
        exact h.1.symm
    · simp at h

/-- An instruction is set aside. -/
private theorem eq_aside_of_instructionStep {s rest : List Char} {t : Token}
    (h : instructionStep s = .token t rest) : t = .aside := by
  unfold instructionStep at h
  split at h
  · simp at h
  · split at h
    · simp at h
    · simp only [Step.token.injEq] at h
      exact h.1.symm

/-- A CDATA section gives its content. -/
private theorem exists_data_of_dataStep {s rest : List Char} {t : Token}
    (h : dataStep s = .token t rest) : ∃ content, t = .data content := by
  unfold dataStep at h
  split at h
  · simp at h
  · split at h
    · simp only [Step.token.injEq] at h
      exact ⟨_, h.1.symm⟩
    · simp at h

/-- An end tag gives a name. -/
private theorem exists_name_of_endTagStep {s rest : List Char} {t : Token}
    (h : endTagStep s = .token t rest) : ∃ name, t = .closeTag name := by
  unfold endTagStep at h
  split at h
  · simp at h
  · simp only [Step.token.injEq] at h
    exact ⟨_, h.1.symm⟩

/-- A piece of markup that is none of the other kinds is a start tag. -/
private theorem markupStep_token_cases {s rest : List Char} {t : Token}
    (h : markupStep s = .token t rest) :
    startTagStep s = .token t rest ∨ (∃ name, t = .closeTag name) ∨
      (∃ content, t = .data content) ∨ t = .aside := by
  unfold markupStep at h
  split at h
  · simp at h
  · exact .inr (.inr (.inr (eq_aside_of_commentStep h)))
  · exact .inr (.inr (.inl (exists_data_of_dataStep h)))
  · exact .inr (.inr (.inr (eq_aside_of_doctypeStep h)))
  · exact .inr (.inr (.inr (eq_aside_of_doctypeStep h)))
  · simp at h
  · exact .inr (.inr (.inr (eq_aside_of_instructionStep h)))
  · exact .inr (.inl (exists_name_of_endTagStep h))
  · exact .inl h

/-- A start tag gives its token from its content. -/
private theorem exists_content_of_startTagStep {s rest : List Char} {t : Token}
    (h : startTagStep s = .token t rest) :
    ∃ content, cutTag none s = some (content, rest) ∧ t = startTag content := by
  unfold startTagStep at h
  split at h
  · simp at h
  · rename_i content after found
    simp only [Step.token.injEq] at h
    obtain ⟨rfl, rfl⟩ := h
    exact ⟨content, found, rfl⟩

/-- Markup gives no text. -/
theorem isText_of_markupStep {s rest : List Char} {t : Token}
    (h : markupStep s = .token t rest) : t.isText = false := by
  obtain start | ⟨name, rfl⟩ | ⟨content, rfl⟩ | rfl := markupStep_token_cases h
  · obtain ⟨content, -, rfl⟩ := exists_content_of_startTagStep start
    unfold startTag
    split <;> rfl
  · rfl
  · rfl
  · rfl

/-! ## One token -/

/-- Behind a `<` there is markup. -/
private theorem nextToken_markup (s : List Char) : nextToken ('<' :: s) = markupStep s := rfl

/-- The token at a start that is no markup is the text up to the next markup. -/
theorem nextToken_text {c : Char} (h : c ≠ '<') (s : List Char) :
    nextToken (c :: s) =
      .token (.text ((c :: s).takeWhile inText)) ((c :: s).dropWhile inText) := by
  unfold nextToken
  split <;> simp_all

/-- Behind a text there is markup, or the end. -/
theorem startsMarkup_dropWhile (s : List Char) : StartsMarkup (s.dropWhile inText) := by
  intro c h
  have := List.head?_dropWhile_not inText s
  rw [h] at this
  simpa [inText] using this

/-- A text without `<` is a piece that gives that text. -/
theorem Piece.text {raw : List Char} (nonempty : raw ≠ []) (plain : ∀ c ∈ raw, c ≠ '<') :
    Piece raw (.text raw) := by
  intro other ends
  replace ends := ends rfl
  obtain ⟨c, raw, rfl⟩ := List.exists_cons_of_ne_nil nonempty
  have inside : ∀ d ∈ c :: raw, inText d = true := by
    intro d hd
    simpa [inText] using plain d hd
  -- What follows starts with `<`, or is nothing, so none of it is a part of the text.
  have stops : other.takeWhile inText = [] ∧ other.dropWhile inText = other := by
    cases other with
    | nil => simp
    | cons d other =>
      have : d = '<' := ends d rfl
      simp [this, inText]
  rw [List.cons_append, nextToken_text (plain c (by simp)), ← List.cons_append,
    List.takeWhile_append_of_pos inside, List.dropWhile_append_of_pos inside, stops.1, stops.2,
    List.append_nil]

/-- A token comes from a piece at the front of the document, whatever follows it.  What follows
    a text is markup, or the end. -/
theorem exists_piece_of_token {s rest : List Char} {t : Token} (h : nextToken s = .token t rest) :
    ∃ piece, piece ≠ [] ∧ s = piece ++ rest ∧ Piece piece t ∧
      (t.isText = true → StartsMarkup rest) := by
  cases s with
  | nil => simp [nextToken] at h
  | cons c tail =>
    -- The first character decides between markup and a text.
    by_cases markup : c = '<'
    · subst markup
      rw [nextToken_markup] at h
      obtain ⟨piece, _, rfl, again⟩ := takes_markupStep h
      refine ⟨'<' :: piece, by simp, by simp, fun other _ => again other, fun isText => ?_⟩
      rw [isText_of_markupStep h] at isText
      simp at isText
    · rw [nextToken_text markup] at h
      simp only [Step.token.injEq] at h
      obtain ⟨rfl, rfl⟩ := h
      have inside : inText c = true := by simpa [inText] using markup
      refine ⟨(c :: tail).takeWhile inText, by simp [inside], ?_, ?_, fun _ => ?_⟩
      · rw [List.takeWhile_append_dropWhile]
      · refine Piece.text (by simp [inside]) fun d hd => ?_
        simpa [inText] using List.all_eq_true.1 List.all_takeWhile d hd
      · exact startsMarkup_dropWhile _

/-! ## Tags -/

/-- Whether a name can stand in a tag as it is: it has no quotes, no `>` and no white space. -/
def IsTagName (name : List Char) : Prop :=
  ∀ c ∈ name, c ≠ '"' ∧ c ≠ '\'' ∧ c ≠ '>' ∧ isBlank c = false

/-- A name that can stand in a tag reaches up to the end of the tag. -/
private theorem cutTag_name {name : List Char} (h : IsTagName name) (other : List Char) :
    cutTag none (name ++ '>' :: other) = some (name, other) := by
  -- No character of the name ends the tag, or opens quotes.
  induction name with
  | nil => simp [cutTag]
  | cons c name ih =>
    obtain ⟨double, single, close, -⟩ := h c (by simp)
    have tail : IsTagName name := fun d hd => h d (by simp [hd])
    simp [cutTag, double, single, close, ih tail]

/-- A name without white space is all of the name in a tag. -/
private theorem tagName_self {name : List Char} (h : IsTagName name) : tagName name = name := by
  have bare : ∀ c ∈ name, (!isBlank c) = true := fun c hc => by simp [(h c hc).2.2.2]
  simpa [tagName] using @List.takeWhile_append_of_pos _ _ name [] bare

/-- A name without white space is all of the name in an end tag. -/
private theorem endName_self {name : List Char} (h : IsTagName name) : endName name = name := by
  -- The last character of the name is no white space, so none is cut off its end.
  have stays : (name.reverse.dropWhile isBlank).reverse = name := by
    cases reversed : name.reverse with
    | nil => simpa using reversed.symm
    | cons c tail =>
      have blank : isBlank c = false := (h c (by rw [← List.mem_reverse, reversed]; simp)).2.2.2
      rw [List.dropWhile_cons_of_neg (by simp [blank]), ← reversed, List.reverse_reverse]
  simp only [endName, stays, ite_self]

/-- An end tag is a piece that closes the element with its name. -/
theorem Piece.closeTag {name : List Char} (h : IsTagName name) :
    Piece ('<' :: '/' :: (name ++ ['>'])) (.closeTag name) := by
  intro other _
  have step : nextToken ('<' :: '/' :: (name ++ ['>']) ++ other) =
      endTagStep (name ++ '>' :: other) := by
    simp [nextToken, markupStep]
  rw [step]
  simp only [endTagStep, cutTag_name h, endName_self h]

/-- A start tag without attributes is a piece that opens an element with its name. -/
theorem Piece.openTag {name : List Char} (h : IsTagName name) (nonempty : name ≠ [])
    (bang : name.head? ≠ some '!') (question : name.head? ≠ some '?')
    (slash : name.head? ≠ some '/') (notEmpty : name.getLast? ≠ some '/') :
    Piece ('<' :: (name ++ ['>'])) (.openTag name) := by
  intro other _
  obtain ⟨c, tail, rfl⟩ := List.exists_cons_of_ne_nil nonempty
  -- The first character keeps the tag from being read as another kind of markup.
  have step : nextToken ('<' :: (c :: tail ++ ['>']) ++ other) =
      startTagStep (c :: tail ++ '>' :: other) := by
    rw [List.cons_append, nextToken_markup, List.cons_append, List.cons_append,
      markupStep_eq_startTagStep (by simpa using bang) (by simpa using question)
        (by simpa using slash)]
    simp
  rw [step]
  simp only [startTagStep, cutTag_name h, startTag, if_neg notEmpty, tagName_self h]

/-- The content of a tag has no `>` before its first quote. -/
private theorem ne_close_of_cutTag {s content after front back : List Char}
    (h : cutTag none s = some (content, after)) (split : content = front ++ back)
    (unquoted : ∀ c ∈ front, c ≠ '"' ∧ c ≠ '\'') : ∀ c ∈ front, c ≠ '>' := by
  -- Induction on the front: as long as no quote is open, the first `>` ends the tag.
  induction front generalizing s content with
  | nil => simp
  | cons d front ih =>
    subst split
    cases s with
    | nil => simp [cutTag] at h
    | cons c rest =>
      simp only [cutTag] at h
      split at h
      · simp at h
      · rename_i notClose
        obtain ⟨⟨b, a⟩, found, eq⟩ := Option.map_eq_some_iff.1 h
        simp only [List.cons_append, Prod.mk.injEq, List.cons.injEq] at eq
        obtain ⟨⟨rfl, inner⟩, rfl⟩ := eq
        have noQuote : ¬ (c = '"' ∨ c = '\'') := by
          have := unquoted c (by simp)
          simp [this.1, this.2]
        rw [if_neg noQuote] at found
        have := ih found inner fun e he => unquoted e (by simp [he])
        simpa [notClose] using this

/-- The name is at the front of what is in the tag. -/
private theorem tagName_prefix (content : List Char) : ∃ back, content = tagName content ++ back :=
  ⟨content.dropWhile fun c => !isBlank c, List.takeWhile_append_dropWhile.symm⟩

/-- A name without quotes that a start tag gave can be written in an end tag. -/
theorem isTagName_of_openTag {s rest name : List Char}
    (h : nextToken s = .token (.openTag name) rest)
    (unquoted : ∀ c ∈ name, c ≠ '"' ∧ c ≠ '\'') : IsTagName name := by
  -- No other kind of markup gives the token of a start tag.
  have start : ∃ tail, startTagStep tail = .token (.openTag name) rest := by
    unfold nextToken at h
    split at h
    · simp at h
    · obtain start | ⟨name, eq⟩ | ⟨content, eq⟩ | eq := markupStep_token_cases h
      · exact ⟨_, start⟩
      · simp at eq
      · simp at eq
      · simp at eq
    · simp at h
  obtain ⟨tail, start⟩ := start
  obtain ⟨content, found, eq⟩ := exists_content_of_startTagStep start
  unfold startTag at eq
  split at eq
  · simp at eq
  · simp only [Token.openTag.injEq] at eq
    subst eq
    obtain ⟨back, split⟩ := tagName_prefix content
    intro c hc
    -- The name ends at the first white space.
    have bare : isBlank c = false := by
      simpa using List.all_eq_true.1 List.all_takeWhile c hc
    exact ⟨(unquoted c hc).1, (unquoted c hc).2,
      ne_close_of_cutTag found split unquoted c hc, bare⟩

/-! ## CDATA sections -/

/-- A text without the end mark of a CDATA section is cut there, and not before. -/
private theorem cutAt_bare {text : List Char}
    (bare : ¬ "]]>".toList <:+: text) (other : List Char) :
    cutAt "]]>".toList (text ++ ("]]>".toList ++ other)) = some (text, other) := by
  induction text with
  | nil => simp [cutAt]
  | cons c text ih =>
    rw [List.infix_cons_iff, not_or] at bare
    -- A mark that starts in the text and ends behind it would have its `>` inside of the mark.
    have notHere : ¬ "]]>".toList <+: c :: (text ++ ("]]>".toList ++ other)) := by
      have before := bare.1
      rcases text with _ | ⟨d, _ | ⟨e, text⟩⟩
      · simp [List.cons_prefix_cons]
      · simp [List.cons_prefix_cons]
      · simp only [String.reduceToList, List.cons_prefix_cons] at before
        simpa [List.cons_prefix_cons] using before
    rw [← List.isPrefixOf_iff_prefix] at notHere
    rw [List.cons_append, cutAt, if_neg notHere, ih bare.2]
    rfl

/-- A CDATA section is a piece that gives its content. -/
theorem Piece.data {text : List Char} (bare : ¬ "]]>".toList <:+: text) :
    Piece ("<![CDATA[".toList ++ (text ++ "]]>".toList)) (.data text) := by
  intro other _
  -- The keyword of the section has no end mark, and none starts in it.
  have keyword : ¬ "]]>".toList <:+: "CDATA[".toList ++ text := by
    simpa [List.infix_cons_iff] using bare
  have found := cutAt_bare keyword other
  have step : nextToken ("<![CDATA[".toList ++ (text ++ "]]>".toList) ++ other) =
      dataStep ("CDATA[".toList ++ text ++ ("]]>".toList ++ other)) := by
    simp [nextToken, markupStep]
  rw [step]
  simp only [dataStep, found]
  simp

end ProjectFile.Markup
