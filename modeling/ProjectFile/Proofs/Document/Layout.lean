import Mathlib.Data.List.TakeWhile
import ProjectFile.Document
import ProjectFile.Proofs.Markup.Mending
import ProjectFile.Proofs.Markup.Reference

/-!
# The events of a written document

The lines of a document, one after the other, are its tags with the texts between them: before
each tag stand the separator of the line before and the indentation of its own line (`gap`).  So
the document of a description reads as the events of its parts (`Node.events`), and breaks off
nowhere.

## Key results

- `toList_document`: the characters of a document
- `Node.reads`: the written form of a part reads as the events of the part
- `scan_document`: the scan of the document of a description
-/

namespace ProjectFile

open ProjectFile.Markup

/-! ## Written parts -/

/-- The text before a tag at a depth: the end of the line before, and the indentation. -/
def gap (separator : List Char) (depth : Nat) : List Char :=
  separator ++ List.replicate depth '\t'

/-- The start tag of an element. -/
def openTag (name : String) : List Char :=
  '<' :: (name.toList ++ ['>'])

/-- The end tag of an element. -/
def closeTag (name : String) : List Char :=
  '<' :: '/' :: (name.toList ++ ['>'])

mutual

/-- A part as it is written, from its first tag to its last. -/
def Node.written (separator : List Char) (depth : Nat) : Node → List Char
  | .leaf name text => openTag name ++ escape text.toList ++ closeTag name
  | .block name children =>
    openTag name ++ Node.allWritten separator (depth + 1) children ++ gap separator depth ++
      closeTag name

/-- Parts as they are written, each with the text before it. -/
def Node.allWritten (separator : List Char) (depth : Nat) : List Node → List Char
  | [] => []
  | node :: rest =>
    gap separator depth ++ node.written separator depth ++ Node.allWritten separator depth rest

end

/-- The characters of some lines, with the separator after each of them. -/
def linesText (separator : List Char) (lines : List Line) : List Char :=
  lines.flatMap fun line => line.render.toList ++ separator

/-- The first line comes with its separator. -/
private theorem linesText_cons (separator : List Char) (line : Line) (lines : List Line) :
    linesText separator (line :: lines) =
      line.render.toList ++ separator ++ linesText separator lines := by
  simp [linesText]

/-- Lines behind other lines are written behind them. -/
private theorem linesText_append (separator : List Char) (lines lines' : List Line) :
    linesText separator (lines ++ lines') =
      linesText separator lines ++ linesText separator lines' := by
  simp [linesText]

/-- A line that opens an element is its start tag, indented. -/
theorem toList_render_opening (depth : Nat) (name : String) :
    (Line.opening depth name).render.toList = List.replicate depth '\t' ++ openTag name := by
  simp [Line.render, Line.tabs, openTag]

/-- A line that closes an element is its end tag, indented. -/
theorem toList_render_closing (depth : Nat) (name : String) :
    (Line.closing depth name).render.toList = List.replicate depth '\t' ++ closeTag name := by
  simp [Line.render, Line.tabs, closeTag]

/-- A line with a leaf is its text between its tags, indented. -/
theorem toList_render_leaf (depth : Nat) (name text : String) :
    (Line.leaf depth name text).render.toList =
      List.replicate depth '\t' ++ (openTag name ++ escape text.toList ++ closeTag name) := by
  simp [Line.render, Line.tabs, openTag, closeTag]

mutual

/-- The lines of a part: its indentation, the part, and a separator. -/
theorem Node.linesText_lines (separator : List Char) (depth : Nat) (node : Node) :
    linesText separator (node.lines depth) =
      List.replicate depth '\t' ++ node.written separator depth ++ separator := by
  match node with
  | .leaf name text =>
    rw [Node.lines, linesText_cons, toList_render_leaf, Node.written]
    simp [linesText]
  | .block name children =>
    have inner := Node.linesText_allLines separator (depth + 1) children
    rw [Node.lines, linesText_cons, linesText_append, linesText_cons, toList_render_opening,
      toList_render_closing, Node.written]
    -- The separator behind the start tag belongs to the first part inside.
    calc
      _ = List.replicate depth '\t' ++ openTag name ++
            (separator ++ linesText separator (Node.allLines (depth + 1) children)) ++
            (List.replicate depth '\t' ++ closeTag name ++ separator) := by
        simp [linesText]
      _ = _ := by
        rw [inner]
        simp [gap]

/-- The lines of some parts: what ends with the separator of the last of them starts with that
    of the line before the first. -/
theorem Node.linesText_allLines (separator : List Char) (depth : Nat) (nodes : List Node) :
    separator ++ linesText separator (Node.allLines depth nodes) =
      Node.allWritten separator depth nodes ++ separator := by
  match nodes with
  | [] => simp [Node.allLines, Node.allWritten, linesText]
  | node :: rest =>
    have first := Node.linesText_lines separator depth node
    have others := Node.linesText_allLines separator depth rest
    rw [Node.allLines, linesText_append, first, Node.allWritten]
    simp only [List.append_assoc, others, gap]

end

/-- The characters of a document: the declaration, the root, and a separator after each. -/
theorem toList_document (d : Description) (separator : String) :
    (d.document separator).toList =
      Line.declaration.render.toList ++ separator.toList ++
        (d.node.written separator.toList 0 ++ separator.toList) := by
  have lines : (d.document separator).toList = linesText separator.toList d.lines := by
    simp [Description.document, linesText, String.toList_join, List.flatMap_map]
  rw [lines, Description.lines, linesText_cons, Node.linesText_lines]
  simp

/-! ## Events of parts -/

/-- The events of a text, which is none if it is empty. -/
def textEvents (raw : List Char) : List Event :=
  if raw = [] then [] else [.text raw]

mutual

/-- The events of a written part. -/
def Node.events (separator : List Char) (depth : Nat) : Node → List Event
  | .leaf name text => .opened name :: (textEvents (escape text.toList) ++ [.closed name])
  | .block name children =>
    .opened name :: (Node.allEvents separator (depth + 1) children ++
      textEvents (gap separator depth) ++ [.closed name])

/-- The events of written parts, each with that of the text before it. -/
def Node.allEvents (separator : List Char) (depth : Nat) : List Node → List Event
  | [] => []
  | node :: rest =>
    textEvents (gap separator depth) ++ node.events separator depth ++
      Node.allEvents separator depth rest

end

/-- Whether a name is one of letters only. -/
def isElementName (name : String) : Bool :=
  !name.toList.isEmpty && name.toList.all Char.isAlpha

mutual

/-- Whether the names of a part are of letters only. -/
def Node.isNamed : Node → Bool
  | .leaf name _ => isElementName name
  | .block name children => isElementName name && Node.allNamed children

/-- Whether the names of some parts are of letters only. -/
def Node.allNamed : List Node → Bool
  | [] => true
  | node :: rest => node.isNamed && Node.allNamed rest

end

/-- A name of letters has no other character. -/
private theorem ne_of_mem_letters {name : List Char} (h : name.all Char.isAlpha = true) {c d : Char}
    (hc : c ∈ name) (notLetter : d.isAlpha = false) : c ≠ d := by
  rintro rfl
  rw [List.all_eq_true.1 h c hc] at notLetter
  simp at notLetter

/-- A name of letters can stand in a tag. -/
private theorem isTagName_of_letters {name : List Char} (h : name.all Char.isAlpha = true) :
    IsTagName name := by
  intro c hc
  have other : ∀ d : Char, d.isAlpha = false → c ≠ d := fun _ => ne_of_mem_letters h hc
  refine ⟨other _ (by decide), other _ (by decide), other _ (by decide), ?_⟩
  simp [isBlank, other ' ' (by decide), other '\t' (by decide), other '\r' (by decide),
    other '\n' (by decide)]

/-- A name of letters has no prefix. -/
private theorem localName_of_letters {name : String} (h : name.toList.all Char.isAlpha = true) :
    localName name.toList = name := by
  have plain : name.toList.dropWhile (· != ':') = [] := by
    rw [List.dropWhile_eq_nil_iff]
    intro c hc
    simpa using ne_of_mem_letters h (d := ':') hc (by decide)
  simp [localName, plain]

variable {name : String} {separator : List Char}

/-- The name of an element has no prefix. -/
theorem localName_of_named (named : isElementName name = true) : localName name.toList = name := by
  simp only [isElementName, Bool.and_eq_true] at named
  exact localName_of_letters named.2

/-- A start tag is a piece of a document. -/
theorem piece_openTag (named : isElementName name = true) :
    Piece (openTag name) (.openTag name.toList) := by
  simp only [isElementName, Bool.and_eq_true, Bool.not_eq_true', List.isEmpty_eq_false_iff]
    at named
  obtain ⟨nonempty, letters⟩ := named
  have starts : ∀ d : Char, d.isAlpha = false → name.toList.head? ≠ some d := by
    intro d notLetter h
    exact ne_of_mem_letters letters (List.mem_of_head? h) notLetter rfl
  have ends : name.toList.getLast? ≠ some '/' := by
    intro h
    exact ne_of_mem_letters letters (List.mem_of_getLast? h) (by decide) rfl
  exact Piece.openTag (isTagName_of_letters letters) nonempty (starts '!' (by decide))
    (starts '?' (by decide)) (starts '/' (by decide)) ends

/-- An end tag is a piece of a document. -/
theorem piece_closeTag (named : isElementName name = true) :
    Piece (closeTag name) (.closeTag name.toList) := by
  simp only [isElementName, Bool.and_eq_true] at named
  exact Piece.closeTag (isTagName_of_letters named.2)

/-- A start tag opens its element. -/
theorem reads_openTag (named : isElementName name = true) (opened : List (List Char))
    (rest : List Char) :
    Reads opened (openTag name ++ rest) [.opened name] (name.toList :: opened) rest :=
  (piece_openTag named).reads (by simp [Token.isText]) (by
    rw [eventOfToken, localName_of_named named])

/-- An end tag closes its element. -/
private theorem reads_closeTag (named : isElementName name = true) (opened : List (List Char))
    (rest : List Char) :
    Reads (name.toList :: opened) (closeTag name ++ rest) [.closed name] opened rest :=
  (piece_closeTag named).reads (by simp [Token.isText]) (by
    simp [eventOfToken, localName_of_named named])

/-- A text without markup in front of a tag reads as its event. -/
theorem reads_text {raw : List Char} (plain : ∀ c ∈ raw, c ≠ '<') (opened : List (List Char))
    {rest : List Char} (ends : StartsMarkup rest) :
    Reads opened (raw ++ rest) (textEvents raw) opened rest := by
  unfold textEvents
  split
  · rename_i empty
    rw [empty]
    exact .done _ _
  · rename_i nonempty
    exact (Piece.text nonempty plain).reads (fun _ => ends) rfl

/-- What holds of the separator and of a tab holds of all that stands before a tag. -/
theorem forall_mem_gap {P : Char → Prop} (h : ∀ c ∈ separator, P c) (tab : P '\t') (depth : Nat) :
    ∀ c ∈ gap separator depth, P c := by
  intro c hc
  rcases List.mem_append.1 hc with hc | hc
  · exact h c hc
  · rw [(List.mem_replicate.1 hc).2]
    exact tab

/-- A part starts with a tag. -/
private theorem startsMarkup_written (separator : List Char) (depth : Nat) (node : Node)
    (rest : List Char) : StartsMarkup (node.written separator depth ++ rest) := by
  cases node with
  | leaf name text =>
    rw [Node.written, openTag]
    exact startsMarkup_cons _
  | block name children =>
    rw [Node.written, openTag]
    exact startsMarkup_cons _

mutual

/-- A written part reads as its events, and leaves open what was open before it. -/
theorem Node.reads (plain : ∀ c ∈ separator, c ≠ '<') (opened : List (List Char)) (depth : Nat)
    (node : Node) (named : node.isNamed = true) (rest : List Char) :
    Reads opened (node.written separator depth ++ rest) (node.events separator depth) opened
      rest := by
  match node with
  | .leaf name text =>
    rw [Node.isNamed] at named
    rw [Node.written, Node.events, List.append_assoc, List.append_assoc]
    exact (reads_openTag named opened _).trans
      ((reads_text (fun c hc => ne_open_of_mem_escape hc) _ (startsMarkup_cons _)).trans
        (reads_closeTag named opened rest))
  -- Between its tags a block has its parts, and the end of the last line.
  | .block name children =>
    rw [Node.isNamed, Bool.and_eq_true] at named
    rw [Node.written, Node.events, List.append_assoc, List.append_assoc, List.append_assoc,
      List.append_assoc]
    exact (reads_openTag named.1 opened _).trans
      ((Node.allReads plain _ (depth + 1) children named.2 _).trans
        ((reads_text (forall_mem_gap plain (by decide) depth) _ (startsMarkup_cons _)).trans
          (reads_closeTag named.1 opened rest)))

/-- Written parts read as their events. -/
theorem Node.allReads (plain : ∀ c ∈ separator, c ≠ '<') (opened : List (List Char))
    (depth : Nat) (nodes : List Node) (named : Node.allNamed nodes = true) (rest : List Char) :
    Reads opened (Node.allWritten separator depth nodes ++ rest)
      (Node.allEvents separator depth nodes) opened rest := by
  match nodes with
  | [] => exact .done _ _
  | node :: others =>
    rw [Node.allNamed, Bool.and_eq_true] at named
    rw [Node.allWritten, Node.allEvents, List.append_assoc, List.append_assoc, List.append_assoc]
    exact (reads_text (forall_mem_gap plain (by decide) depth) _ (startsMarkup_written _ _ _ _)).trans
      ((Node.reads plain opened depth node named.1 _).trans
        (Node.allReads plain opened depth others named.2 rest))

end

/-! ## The document -/

/-- Parts are named if each one is. -/
private theorem Node.allNamed_eq_all (nodes : List Node) :
    Node.allNamed nodes = nodes.all Node.isNamed := by
  induction nodes with
  | nil => rfl
  | cons node rest ih => rw [allNamed, ih, List.all_cons]

/-- A block is named if its name and its parts are. -/
private theorem isNamed_block {children : List Node} (named : isElementName name = true)
    (all : ∀ child ∈ children, child.isNamed = true) :
    (Node.block name children).isNamed = true := by
  rw [Node.isNamed, named, Node.allNamed_eq_all, List.all_eq_true.2 all]
  rfl

/-- A block of like parts, one for each entry of a list. -/
private theorem isNamed_block_map {α : Type _} {f : α → Node} (named : isElementName name = true)
    (each : ∀ a, (f a).isNamed = true) (as : List α) :
    (Node.block name (as.map f)).isNamed = true := by
  apply isNamed_block named
  intro child hchild
  obtain ⟨a, -, rfl⟩ := List.mem_map.1 hchild
  exact each a

/-- The part of an argument is named. -/
private theorem isNamed_argumentNode (entry : String × Option String) :
    (argumentNode entry).isNamed = true := by
  simp only [argumentNode, Node.isNamed, Node.allNamed]
  decide

/-- The part of a command is named. -/
private theorem BuildCommand.isNamed_node (c : BuildCommand) : c.node.isNamed = true := by
  refine isNamed_block (by decide) ?_
  simp only [List.mem_cons, List.not_mem_nil, or_false, forall_eq_or_imp, forall_eq]
  refine ⟨?_, isNamed_block_map (by decide) isNamed_argumentNode _⟩
  rw [Node.isNamed]
  decide

/-- The part of a link is named, in whichever form its location is. -/
private theorem Link.isNamed_node (l : Link) : l.node.isNamed = true := by
  have location : (locationNode l.location).isNamed = true := by
    unfold locationNode
    split <;> rw [Node.isNamed] <;> decide
  rw [Link.node]
  cases l.type? with
  | none =>
    simp only [typeNodes, List.cons_append, List.nil_append, Node.isNamed, Node.allNamed,
      location]
    decide
  | some type =>
    simp only [typeNodes, List.cons_append, List.nil_append, Node.isNamed, Node.allNamed,
      location]
    decide

/-- The part of a filter is named, with or without a matcher. -/
private theorem Filter.isNamed_node (f : Filter) : f.node.isNamed = true := by
  rw [Filter.node]
  cases f.matcher? with
  | none =>
    simp only [matcherNodes, List.append_nil, Node.isNamed, Node.allNamed]
    decide
  | some m =>
    simp only [matcherNodes, List.cons_append, List.nil_append, Node.isNamed, Node.allNamed]
    decide

/-- A block that may be left out is named, if it is there. -/
private theorem isNamed_of_mem_optionalBlock {α : Type _} {f : α → Node}
    (named : isElementName name = true) (each : ∀ a, (f a).isNamed = true) (as : List α)
    {child : Node} (h : child ∈ optionalBlock name (as.map f)) : child.isNamed = true := by
  unfold optionalBlock at h
  split at h
  · simp at h
  · rw [List.mem_singleton.1 h]
    exact isNamed_block_map named each as

/-- The names of all elements of a description are of letters only. -/
theorem Description.isNamed_node (d : Description) : d.node.isNamed = true := by
  have leaf : ∀ name text : String, isElementName name = true →
      (Node.leaf name text).isNamed = true := by
    intro name text named
    rwa [Node.isNamed]
  refine isNamed_block (by decide) ?_
  intro child h
  -- The parts that are always written, then the links, then the filters.
  rcases List.mem_append.1 h with h | h
  · rcases List.mem_append.1 h with h | h
    · simp only [List.mem_cons, List.not_mem_nil, or_false] at h
      rcases h with rfl | rfl | rfl | rfl | rfl
      · exact leaf _ _ (by decide)
      · exact leaf _ _ (by decide)
      · exact isNamed_block_map (by decide) (fun _ => leaf _ _ (by decide)) _
      · exact isNamed_block_map (by decide) BuildCommand.isNamed_node _
      · exact isNamed_block_map (by decide) (fun _ => leaf _ _ (by decide)) _
    · exact isNamed_of_mem_optionalBlock (by decide) Link.isNamed_node _ h
  · exact isNamed_of_mem_optionalBlock (by decide) Filter.isNamed_node _ h

/-- The declaration is read as one piece, whatever follows it. -/
theorem piece_declaration : Piece Line.declaration.render.toList .aside := by
  -- Read with nothing behind it, the declaration is one token.
  have token : nextToken Line.declaration.render.toList = .token .aside [] := by decide
  obtain ⟨piece, -, split, whole, -⟩ := exists_piece_of_token token
  rwa [split, List.append_nil]

/-- The events of the document of a description. -/
def Description.events (d : Description) (separator : List Char) : List Event :=
  .aside :: (textEvents separator ++ (d.node.events separator 0 ++ textEvents separator))

/-- The document of a description reads to its end. -/
theorem scan_document (d : Description) {s : String} (plain : ∀ c ∈ s.toList, c ≠ '<') :
    scan (d.document s).toList = ⟨d.events s.toList, .finished⟩ := by
  -- The declaration comes first, so there is no byte order mark.
  have unmarked : dropMark (d.document s).toList = (d.document s).toList := by
    apply dropMark_of_head?
    rw [toList_document]
    simp [Line.render]
  have atRoot := startsMarkup_written s.toList 0 d.node s.toList
  have after : Reads [] s.toList (textEvents s.toList) [] [] := by
    have := reads_text plain [] startsMarkup_nil
    rwa [List.append_nil] at this
  -- The declaration, the first separator, the root, and the last separator.
  have reads : Reads [] (dropMark (d.document s).toList) (d.events s.toList) [] [] := by
    rw [unmarked, toList_document, List.append_assoc]
    exact (piece_declaration.reads (by simp [Token.isText]) rfl).trans
      ((reads_text plain [] atRoot).trans
        ((Node.reads plain [] 0 d.node d.isNamed_node _).trans after))
  rw [scan_eq_of_reads reads (stops_nil _)]
  rfl

end ProjectFile
