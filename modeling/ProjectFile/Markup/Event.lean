import ProjectFile.Markup.Token

/-! # Events of a document

The tokens of a document, once every end tag is known to close the innermost open element, are
its events.  `scan` gives the events up to the first fault or the end of the document, and says
how they end. -/

namespace ProjectFile.Markup

open ProjectFile.Text

/-- One step of a walk over a document's elements.  Names are local: without the prefix. -/
inductive Event where
  | opened (name : String)
  /-- An element that is opened and closed by one tag. -/
  | empty (name : String)
  | closed (name : String)
  | text (raw : List Char)
  | data (content : List Char)
  | aside
deriving DecidableEq, Repr

/-- The part of a name after its first colon, or all of a name without one. -/
def localName (name : List Char) : String :=
  String.ofList <|
    match name.dropWhile (· != ':') with
    | [] => name
    | _ :: rest => rest

/-- What comes next in a document in which the elements named by `opened`, innermost first, are
    open. -/
inductive Move where
  | done
  | event (e : Event) (opened : List (List Char)) (rest : List Char)
  | fault (f : Fault) (rest : List Char)
deriving DecidableEq, Repr

/-- The event of a token, and the names that are open after it. -/
def eventOfToken (opened : List (List Char)) : Token → Except Fault (Event × List (List Char))
  | .openTag name => .ok (.opened (localName name), name :: opened)
  | .emptyTag name => .ok (.empty (localName name), opened)
  | .closeTag name =>
    match opened with
    | [] => .error (.unmatchedEnd name)
    | innermost :: outer =>
      -- The names are compared with their prefixes, though events leave these out.
      if name = innermost then .ok (.closed (localName name), outer)
      else .error (.mismatchedEnd innermost name)
  | .text raw => .ok (.text raw, opened)
  | .data content => .ok (.data content, opened)
  | .aside => .ok (.aside, opened)

/-- Takes the first event off the front of a document. -/
def nextEvent (opened : List (List Char)) (s : List Char) : Move :=
  match nextToken s with
  | .done => .done
  | .fault f rest => .fault f rest
  | .token t rest =>
    match eventOfToken opened t with
    | .ok (e, opened) => .event e opened rest
    | .error f => .fault f rest

/-- An event takes at least one character off the document. -/
theorem length_rest_lt_of_event {opened opened' : List (List Char)} {s rest : List Char}
    {e : Event} (h : nextEvent opened s = .event e opened' rest) : rest.length < s.length := by
  unfold nextEvent at h
  split at h
  · cases h
  · cases h
  · rename_i t tail token
    split at h
    · simp only [Move.event.injEq] at h
      obtain ⟨-, -, rfl⟩ := h
      exact length_rest_lt_of_token token
    · cases h

/-- How the events of a document end. -/
inductive Ending where
  | finished
  /-- By a fault, after `position` bytes. -/
  | broken (position : Nat) (f : Fault)
deriving DecidableEq, Repr

/-- The events of a document, and how they end. -/
structure Scan where
  events : List Event
  ending : Ending
deriving DecidableEq, Repr

/-- Goes on scanning a document of `size` bytes; `seen` are the events so far, latest first. -/
def scanFrom (size : Nat) (seen : List Event) (opened : List (List Char)) (s : List Char) :
    Scan :=
  match _h : nextEvent opened s with
  | .done => ⟨seen.reverse, .finished⟩
  | .fault f rest => ⟨seen.reverse, .broken (size - byteLength rest) f⟩
  | .event e opened rest => scanFrom size (e :: seen) opened rest
termination_by s.length
decreasing_by exact length_rest_lt_of_event _h

/-- A byte order mark at the start is not part of the document. -/
def dropMark : List Char → List Char
  | '\ufeff' :: s => s
  | s => s

/-- The events of a document up to its end or its first fault. -/
def scan (content : List Char) : Scan :=
  let document := dropMark content
  scanFrom (byteLength document) [] [] document

end ProjectFile.Markup
