import ProjectFile.Text.Bytes

/-! # Tokens of markup

A document is a sequence of texts and pieces of markup.  `nextToken` takes the first of them off
the front of a document and hands back the rest; the rest is always shorter
(`length_rest_lt_of_token`).  Attributes and the content of comments, instructions and
document type declarations are passed over. -/

namespace ProjectFile.Markup

/-- One piece of a document.  Names are the full names, with their prefixes. -/
inductive Token where
  | openTag (name : List Char)
  | emptyTag (name : List Char)
  | closeTag (name : List Char)
  /-- Text up to the next markup, with its references. -/
  | text (raw : List Char)
  /-- The content of a CDATA section, which is text without references. -/
  | data (content : List Char)
  /-- A comment, an instruction, the declaration, or a document type declaration. -/
  | aside
deriving DecidableEq, Repr

/-- Why a document breaks off. -/
inductive Fault where
  | badBang
  | instructionNotClosed
  | commentNotClosed
  | doctypeNotClosed
  | dataNotClosed
  | tagNotClosed
  | doctypeNotNamed
  /-- An end tag, and no element is open. -/
  | unmatchedEnd (name : List Char)
  /-- An end tag, and the innermost open element has another name. -/
  | mismatchedEnd (expected found : List Char)
deriving DecidableEq, Repr

/-- The text of a fault. -/
def Fault.message : Fault → String
  | .badBang => "syntax error: unknown or missed symbol in markup"
  | .instructionNotClosed =>
    "syntax error: processing instruction or xml declaration not closed: `?>` not found before end of input"
  | .commentNotClosed => "syntax error: comment not closed: `-->` not found before end of input"
  | .doctypeNotClosed => "syntax error: DOCTYPE not closed: `>` not found before end of input"
  | .dataNotClosed => "syntax error: CDATA not closed: `]]>` not found before end of input"
  | .tagNotClosed => "syntax error: tag not closed: `>` not found before end of input"
  | .doctypeNotNamed =>
    "ill-formed document: `<!DOCTYPE>` declaration does not contain a name of a document type"
  | .unmatchedEnd name =>
    let name := String.ofList name
    s!"ill-formed document: close tag `</{name}>` does not match any open tag"
  | .mismatchedEnd expected found =>
    let expected := String.ofList expected
    let found := String.ofList found
    s!"ill-formed document: expected `</{expected}>`, but `</{found}>` was found"

/-- White space inside markup: space, tab, carriage return and line feed only. -/
def isBlank (c : Char) : Bool :=
  c == ' ' || c == '\t' || c == '\r' || c == '\n'

/-! ## Finding the end of a piece of markup -/

/-- Splits a text at the first occurrence of a mark: what is before it, and what is after it. -/
def cutAt (mark : List Char) : List Char → Option (List Char × List Char)
  | [] => none
  | c :: rest =>
    if mark.isPrefixOf (c :: rest) then some ([], (c :: rest).drop mark.length)
    else (cutAt mark rest).map fun (before, after) => (c :: before, after)

/-- Splits a text at the first `>` that closes no `<` inside; `depth` of them are open. -/
def cutBalanced (depth : Nat) : List Char → Option (List Char × List Char)
  | [] => none
  | c :: rest =>
    let go (depth : Nat) :=
      (cutBalanced depth rest).map fun (before, after) => (c :: before, after)
    if c = '<' then go (depth + 1)
    else if c = '>' then
      match depth with
      | 0 => some ([], rest)
      | depth + 1 => go depth
    else go depth

/-- Splits a text at the first `>` outside quotes; `quote?` is the quote that is open. -/
def cutTag (quote? : Option Char) : List Char → Option (List Char × List Char)
  | [] => none
  | c :: rest =>
    let go (quote? : Option Char) :=
      (cutTag quote? rest).map fun (before, after) => (c :: before, after)
    match quote? with
    | some q => go (if c = q then none else some q)
    | none =>
      if c = '>' then some ([], rest)
      else go (if c = '"' ∨ c = '\'' then some c else none)

/-! ## One token -/

/-- What stands at the front of a document. -/
inductive Step where
  /-- Nothing: the document is at its end. -/
  | done
  | token (t : Token) (rest : List Char)
  /-- A piece of markup that is broken; `rest` is what was not consumed. -/
  | fault (f : Fault) (rest : List Char)
deriving DecidableEq, Repr

/-- The name of a tag is its content up to the first blank. -/
def tagName (content : List Char) : List Char :=
  content.takeWhile fun c => !isBlank c

/-- A start tag with the given content; a `/` at its end makes it an empty element. -/
def startTag (content : List Char) : Token :=
  if content.getLast? = some '/' then .emptyTag (tagName content.dropLast)
  else .openTag (tagName content)

/-- The name in an end tag: its content without the blanks at its end, except that content of
    nothing but blanks is a name as it stands. -/
def endName (content : List Char) : List Char :=
  let name := (content.reverse.dropWhile isBlank).reverse
  if name = [] then content else name

/-- The piece after `<!-`: a comment, if one more `-` follows. -/
def commentStep (s : List Char) : Step :=
  -- The dashes that open a comment do not close it.
  match cutAt "-->".toList (s.drop 1) with
  | none => .fault .commentNotClosed []
  | some (_, after) =>
    if s.head? = some '-' then .token .aside after else .fault .commentNotClosed after

/-- The piece after `<![`: a CDATA section, if its keyword follows. -/
def dataStep (s : List Char) : Step :=
  match cutAt "]]>".toList s with
  | none => .fault .dataNotClosed []
  | some (before, after) =>
    if "CDATA[".toList.isPrefixOf before then .token (.data (before.drop 6)) after
    else .fault .dataNotClosed after

/-- The piece after `<!`, from the letter that starts the keyword on: a document type
    declaration, if the keyword, in either case, and a name follow. -/
def doctypeStep (s : List Char) : Step :=
  match cutBalanced 0 s with
  | none => .fault .doctypeNotClosed []
  | some (before, after) =>
    -- The keyword is looked at only once the end is found.
    if (before.take 7).map Char.toLower = "doctype".toList then
      if (before.drop 7).all isBlank then .fault .doctypeNotNamed after else .token .aside after
    else .fault .doctypeNotClosed after

/-- The piece after `<?`: an instruction.  The `?` that opens it may not also close it. -/
def instructionStep (s : List Char) : Step :=
  match cutAt "?>".toList ('?' :: s) with
  | none => .fault .instructionNotClosed []
  | some (before, after) =>
    -- With nothing before it, the mark has the `?` that opens the piece.
    if before = [] then .fault .instructionNotClosed after else .token .aside after

/-- The piece after `</`: an end tag. -/
def endTagStep (s : List Char) : Step :=
  match cutTag none s with
  | none => .fault .tagNotClosed []
  | some (content, after) => .token (.closeTag (endName content)) after

/-- The piece after `<`: a start tag. -/
def startTagStep (s : List Char) : Step :=
  match cutTag none s with
  | none => .fault .tagNotClosed []
  | some (content, after) => .token (startTag content) after

/-- The piece of markup after `<`. -/
def markupStep : List Char → Step
  | [] => .fault .tagNotClosed []
  | '!' :: '-' :: rest => commentStep rest
  | '!' :: '[' :: rest => dataStep rest
  | '!' :: 'D' :: rest => doctypeStep ('D' :: rest)
  | '!' :: 'd' :: rest => doctypeStep ('d' :: rest)
  | '!' :: rest => .fault .badBang ('!' :: rest)
  | '?' :: rest => instructionStep rest
  | '/' :: rest => endTagStep rest
  | rest => startTagStep rest

/-- Whether a character belongs to the text before the next piece of markup. -/
def inText (c : Char) : Bool :=
  c != '<'

/-- Takes the first token off the front of a document. -/
def nextToken : List Char → Step
  | [] => .done
  | '<' :: rest => markupStep rest
  | s => .token (.text (s.takeWhile inText)) (s.dropWhile inText)

/-! ## The rest is shorter -/

/-- What is cut off behind a mark is the same with one character more at the front. -/
private theorem exists_of_map_cons {c : Char} {parts? : Option (List Char × List Char)}
    {before after : List Char}
    (h : parts?.map (fun x => (c :: x.1, x.2)) = some (before, after)) :
    ∃ before', parts? = some (before', after) := by
  obtain ⟨⟨before', _⟩, found, eq⟩ := Option.map_eq_some_iff.1 h
  obtain ⟨-, rfl⟩ := Prod.mk.inj eq
  exact ⟨before', found⟩

/-- A mark and what is after it are no longer than the text. -/
private theorem length_add_le_of_cutAt {mark s before after : List Char}
    (h : cutAt mark s = some (before, after)) : mark.length + after.length ≤ s.length := by
  induction s generalizing before with
  | nil => simp [cutAt] at h
  | cons c rest ih =>
    rw [cutAt] at h
    split at h
    · -- The mark stands here, so it is no longer than what is left of the text.
      rename_i here
      have fits := (List.isPrefixOf_iff_prefix.1 here).length_le
      simp only [Option.some.injEq, Prod.mk.injEq] at h
      rw [← h.2, List.length_drop]
      omega
    · obtain ⟨_, found⟩ := exists_of_map_cons h
      have shorter := ih found
      rw [List.length_cons]
      omega

/-- What is after the end of a declaration is shorter than the text. -/
private theorem length_lt_of_cutBalanced {depth : Nat} {s before after : List Char}
    (h : cutBalanced depth s = some (before, after)) : after.length < s.length := by
  induction s generalizing depth before with
  | nil => simp [cutBalanced] at h
  | cons c rest ih =>
    -- Whatever is open, the end is further back, unless it is here.
    have further : ∀ d, (cutBalanced d rest).map (fun x => (c :: x.1, x.2)) =
        some (before, after) → after.length < (c :: rest).length := by
      intro d hd
      obtain ⟨_, found⟩ := exists_of_map_cons hd
      exact Nat.lt_succ_of_lt (ih found)
    simp only [cutBalanced] at h
    split at h
    · exact further _ h
    · split at h
      · split at h
        · simp only [Option.some.injEq, Prod.mk.injEq] at h
          simp [← h.2]
        · exact further _ h
      · exact further _ h

/-- What is after the end of a tag is shorter than the text. -/
private theorem length_lt_of_cutTag {quote? : Option Char} {s before after : List Char}
    (h : cutTag quote? s = some (before, after)) : after.length < s.length := by
  induction s generalizing quote? before with
  | nil => simp [cutTag] at h
  | cons c rest ih =>
    -- Inside of quotes and outside of them, the end is further back, unless it is here.
    have further : ∀ q, (cutTag q rest).map (fun x => (c :: x.1, x.2)) = some (before, after) →
        after.length < (c :: rest).length := by
      intro q hq
      obtain ⟨_, found⟩ := exists_of_map_cons hq
      exact Nat.lt_succ_of_lt (ih found)
    simp only [cutTag] at h
    split at h
    · exact further _ h
    · split at h
      · simp only [Option.some.injEq, Prod.mk.injEq] at h
        simp [← h.2]
      · exact further _ h

/-- The length of what a step leaves, if it leaves anything to go on with. -/
def Step.restLength : Step → Nat
  | .done => 0
  | .token _ rest => rest.length
  | .fault _ rest => rest.length

/-- A comment leaves no more than there was. -/
private theorem restLength_commentStep_le (s : List Char) :
    (commentStep s).restLength ≤ s.length := by
  unfold commentStep
  split
  · simp [Step.restLength]
  · rename_i after h
    have cut := length_add_le_of_cutAt h
    rw [List.length_drop] at cut
    split <;> simp only [Step.restLength] <;> omega

/-- A CDATA section leaves no more than there was. -/
private theorem restLength_dataStep_le (s : List Char) : (dataStep s).restLength ≤ s.length := by
  unfold dataStep
  split
  · simp [Step.restLength]
  · rename_i before after h
    have cut := length_add_le_of_cutAt h
    split <;> simp only [Step.restLength] <;> omega

/-- A document type declaration leaves no more than there was. -/
private theorem restLength_doctypeStep_le (s : List Char) :
    (doctypeStep s).restLength ≤ s.length := by
  unfold doctypeStep
  split
  · simp [Step.restLength]
  · rename_i before after h
    have := length_lt_of_cutBalanced h
    split
    · split <;> simp only [Step.restLength] <;> omega
    · simp only [Step.restLength]
      omega

/-- An instruction leaves no more than there was, though its `?` is looked at again. -/
private theorem restLength_instructionStep_le (s : List Char) :
    (instructionStep s).restLength ≤ s.length := by
  unfold instructionStep
  split
  · simp [Step.restLength]
  · rename_i before after h
    -- The mark has two characters, and only one of them is put in front.
    have cut : 2 + after.length ≤ s.length + 1 := length_add_le_of_cutAt h
    split <;> simp only [Step.restLength] <;> omega

/-- An end tag leaves no more than there was. -/
private theorem restLength_endTagStep_le (s : List Char) :
    (endTagStep s).restLength ≤ s.length := by
  unfold endTagStep
  split
  · simp [Step.restLength]
  · rename_i content after h
    exact Nat.le_of_lt (length_lt_of_cutTag h)

/-- A start tag leaves no more than there was. -/
private theorem restLength_startTagStep_le (s : List Char) :
    (startTagStep s).restLength ≤ s.length := by
  unfold startTagStep
  split
  · simp [Step.restLength]
  · rename_i content after h
    exact Nat.le_of_lt (length_lt_of_cutTag h)

/-- A piece of markup leaves no more than there was. -/
private theorem restLength_markupStep_le (s : List Char) :
    (markupStep s).restLength ≤ s.length := by
  unfold markupStep
  -- Each piece is read behind the characters that tell its kind.
  split
  · simp [Step.restLength]
  · rename_i rest
    have := restLength_commentStep_le rest
    simp only [List.length_cons]; omega
  · rename_i rest
    have := restLength_dataStep_le rest
    simp only [List.length_cons]; omega
  · rename_i rest
    have := restLength_doctypeStep_le ('D' :: rest)
    simp only [List.length_cons] at this ⊢; omega
  · rename_i rest
    have := restLength_doctypeStep_le ('d' :: rest)
    simp only [List.length_cons] at this ⊢; omega
  · simp [Step.restLength]
  · rename_i rest
    have := restLength_instructionStep_le rest
    simp only [List.length_cons]; omega
  · rename_i rest
    have := restLength_endTagStep_le rest
    simp only [List.length_cons]; omega
  · exact restLength_startTagStep_le s

/-- A token takes at least one character off the document. -/
theorem length_rest_lt_of_token {s rest : List Char} {t : Token}
    (h : nextToken s = .token t rest) : rest.length < s.length := by
  unfold nextToken at h
  split at h
  · cases h
  · -- The `<` is taken off before the piece is read.
    rename_i tail
    have := restLength_markupStep_le tail
    rw [h] at this
    simp only [Step.restLength] at this
    simp only [List.length_cons]
    omega
  · -- A text has one character at least, as it starts with none that opens markup.
    rename_i nonempty notMarkup
    simp only [Step.token.injEq] at h
    obtain ⟨-, rfl⟩ := h
    match s with
    | [] => exact absurd rfl nonempty
    | c :: tail =>
      have isText : inText c = true := by
        by_cases hc : c = '<'
        · exact absurd (hc ▸ rfl) (notMarkup tail)
        · simp [inText, hc]
      rw [List.dropWhile_cons_of_pos isText]
      exact Nat.lt_succ_of_le (List.dropWhile_sublist inText).length_le

end ProjectFile.Markup
