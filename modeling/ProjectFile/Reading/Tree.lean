import ProjectFile.Reading.Element
import ProjectFile.Reading.Problem

/-! # The tree of a document

The events of a document are folded into the tree of its root element.  Only the children of the
elements on the paths of a description are kept; what is inside any other element is passed over,
so the tree is never deeper than a description, however deep the document is.

When the document breaks off, the elements that are still open are closed, and what they hold so
far is kept. -/

namespace ProjectFile

open ProjectFile.Markup

/-- An element that is not closed yet. -/
structure OpenElement where
  name : String
  text : String := ""
  /-- The children so far, latest first. -/
  latest : List Element := []

/-- The element, closed. -/
def OpenElement.close (o : OpenElement) : Element where
  name := o.name
  text := o.text
  children := o.latest.reverse

/-- The paths, from the root down, of the elements whose children are kept; the empty path is
    that of the document. -/
def keptPaths : List (List String) :=
  [[],
   ["projectDescription"],
   ["projectDescription", "projects"],
   ["projectDescription", "natures"],
   ["projectDescription", "buildSpec"],
   ["projectDescription", "buildSpec", "buildCommand"],
   ["projectDescription", "buildSpec", "buildCommand", "arguments"],
   ["projectDescription", "buildSpec", "buildCommand", "arguments", "dictionary"],
   ["projectDescription", "linkedResources"],
   ["projectDescription", "linkedResources", "link"],
   ["projectDescription", "filteredResources"],
   ["projectDescription", "filteredResources", "filter"],
   ["projectDescription", "filteredResources", "filter", "matcher"]]

/-- Whether the children of the element at a path are kept. -/
def keepsChildren (path : List String) : Bool :=
  keptPaths.contains path

/-- A tree under construction. -/
structure Tree where
  /-- The open elements that are kept, innermost first. -/
  opened : List OpenElement := []
  /-- How many elements are open inside the innermost kept one. -/
  skipped : Nat := 0
  /-- The root, once it is closed.  Nothing after it is looked at. -/
  root? : Option Element := none
  /-- The problems so far, latest first. -/
  latest : List Problem := []

namespace Tree

/-- The path, from the root down, of the innermost kept element. -/
def path (t : Tree) : List String :=
  (t.opened.map OpenElement.name).reverse

/-- The name of the innermost kept element, or nothing outside of the root. -/
def innermost (t : Tree) : String :=
  (t.opened.head?.map OpenElement.name).getD ""

/-- The problems, in the order in which they were found. -/
def problems (t : Tree) : List Problem :=
  t.latest.reverse

/-- Records a problem. -/
def note (t : Tree) (p : Problem) : Tree :=
  { t with latest := p :: t.latest }

/-- Puts a closed element where it belongs: into the innermost open one, or at the root. -/
def attach (t : Tree) (e : Element) : Tree :=
  match t.opened with
  | [] => { t with root? := some e }
  | o :: outer => { t with opened := { o with latest := e :: o.latest } :: outer }

/-- Adds a text to the innermost open element. -/
def append (t : Tree) (text : List Char) : Tree :=
  match t.opened with
  | [] => t
  | o :: outer => { t with opened := { o with text := o.text ++ String.ofList text } :: outer }

/-- Closes the innermost open element. -/
def closeInnermost (t : Tree) : Tree :=
  match t.opened with
  | [] => t
  | o :: outer => { t with opened := outer }.attach o.close

/-- A piece of text.  One whose references cannot be resolved is kept as it stands. -/
def addText (t : Tree) (raw : List Char) : Tree :=
  if t.opened.isEmpty then t
  else
    match resolve raw with
    | .ok text => t.append text
    | .error fault => (t.append raw).note (.unresolvedText t.innermost fault)

/-- An event before the root is closed; `keeps` tells of which paths the children are kept. -/
def advance (keeps : List String → Bool) (t : Tree) : Event → Tree
  | .opened name =>
    -- Of what is passed over, only the depth is kept.
    if 0 < t.skipped then { t with skipped := t.skipped + 1 }
    else if keeps t.path then { t with opened := { name } :: t.opened }
    else { t with skipped := 1 }
  | .empty name => if t.skipped = 0 ∧ keeps t.path then t.attach { name } else t
  | .closed _ => if 0 < t.skipped then { t with skipped := t.skipped - 1 } else t.closeInnermost
  | .text raw => if 0 < t.skipped then t else t.addText raw
  | .data content => if 0 < t.skipped then t else t.append content
  | .aside => t

/-- One event of the document. -/
def step (keeps : List String → Bool) (t : Tree) (e : Event) : Tree :=
  if t.root?.isSome then t else t.advance keeps e

/-- Closes the innermost of `n` open elements, one after the other. -/
def closeMany (t : Tree) : Nat → Tree
  | 0 => t
  | n + 1 => t.closeInnermost.closeMany n

/-- The end of the document.  If it comes before the root is closed, that is a problem, and what
    is open is closed. -/
def finish (t : Tree) (ending : Ending) : Tree :=
  if t.root?.isSome then t
  else
    -- The problem names the element that is innermost now, so it is recorded before closing.
    let noted := match ending with
      | .broken position fault => t.note (.malformed t.innermost position fault)
      | .finished => if t.opened.isEmpty then t else t.note (.unclosed t.innermost)
    noted.closeMany t.opened.length

/-- The tree of a scanned document. -/
def ofScan (keeps : List String → Bool) (s : Scan) : Tree :=
  (s.events.foldl (step keeps) {}).finish s.ending

end Tree

end ProjectFile
