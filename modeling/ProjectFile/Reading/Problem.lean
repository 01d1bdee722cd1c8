import ProjectFile.Location
import ProjectFile.Markup.Event
import ProjectFile.Markup.Reference

/-! # Problems of a reading

A reading goes on after a problem: it drops the entry that has it, or keeps what can be kept.
Every problem is recorded with the element that it was found in. -/

namespace ProjectFile

open ProjectFile.Text ProjectFile.Markup

/-- What was found wrong while a description was read. -/
inductive Problem where
  /-- The references of a text cannot be resolved; the text is kept as it stands. -/
  | unresolvedText (element : String) (fault : ReferenceFault)
  /-- The markup breaks off after `position` bytes. -/
  | malformed (element : String) (position : Nat) (fault : Fault)
  /-- The document ends inside an element. -/
  | unclosed (element : String)
  /-- A child of the build specification is no build command. -/
  | notACommand (name : String)
  | unnamedCommand
  /-- A child of the arguments is no dictionary. -/
  | strayArgument (name : String)
  | missingKey
  | unnamedLink
  | badLocation (path : String) (fault : LocationFault)
  | noLocation (path : String)
  /-- The type of a link is none of the types; the link is kept without a type. -/
  | badType (path code : String)
  /-- A link takes the place of an earlier one. -/
  | duplicateLink (path : String)
deriving DecidableEq, Repr

namespace Problem

/-- The element that a problem was found in. -/
def element : Problem → String
  | .unresolvedText element _ => element
  | .malformed element _ _ => element
  | .unclosed element => element
  | .notACommand name => "buildSpec/" ++ name
  | .unnamedCommand => "buildCommand"
  | .strayArgument name => "arguments/" ++ name
  | .missingKey => "dictionary"
  | .unnamedLink => "link"
  | .badLocation _ _ => "link"
  | .noLocation _ => "link"
  | .badType _ _ => "link/type"
  | .duplicateLink _ => "link"

/-- What is wrong. -/
def message : Problem → String
  | .unresolvedText _ fault => s!"cannot unescape text: {fault.message}"
  | .malformed _ position fault => s!"malformed XML at byte {position}: {fault.message}"
  | .unclosed _ => "document ends before element is closed"
  | .notACommand _ => "not a build command, skipped"
  | .unnamedCommand => "missing builder name, skipped"
  | .strayArgument _ => "argument outside of dictionary, skipped"
  | .missingKey => "missing argument key, skipped"
  | .unnamedLink => "missing link name, skipped"
  | .badLocation path fault => s!"link {quote path}: {fault.message}, skipped"
  | .noLocation path => s!"link {quote path} has no location, skipped"
  | .badType path code => s!"link {quote path} has invalid resource type {quote code}"
  | .duplicateLink path => s!"duplicate link {quote path}, keeping the last one"

/-- The whole text of a problem. -/
def text (p : Problem) : String :=
  s!"<{p.element}>: {p.message}"

end Problem

/-- What a reading tells about, in the order in which it comes up. -/
inductive Note where
  | problem (p : Problem)
  /-- A child of the root that is no part of a description. -/
  | unknownElement (name : String)
  /-- The root is not that of a description. -/
  | wrongRoot (name : String)
deriving DecidableEq, Repr

/-- The problem that a note is about. -/
def Note.problem? : Note → Option Problem
  | .problem p => some p
  | _ => none

end ProjectFile
