import ProjectFile.Reading.Describe
import ProjectFile.Stream

/-! # Reading from streams

A reader reads descriptions from sources, one after the other, and holds the problems of the last
one that it could read.  A source that cannot be read leaves them as they are. -/

namespace ProjectFile

variable [Uri.DomainNames]

/-- Why a description cannot be read: its source gives no text. -/
structure ReadFault where
  cause : SourceFault
deriving DecidableEq, Repr

/-- The text of a fault. -/
def ReadFault.message (_ : ReadFault) : String :=
  "failed to read project description"

/-- Reads the document that a source gives. -/
def Reading.ofSource (s : Source) : Except ReadFault Reading :=
  match s.text with
  | .ok text => .ok (Reading.ofText text)
  | .error cause => .error ⟨cause⟩

/-- A reader, with the problems of the last document that it read. -/
structure Reader where
  /-- The problems, latest first. -/
  latest : List Problem := []

namespace Reader

/-- The problems, in the order in which they were found. -/
def problems (r : Reader) : List Problem :=
  r.latest.reverse

/-- Records what comes up while a document is read, if it is a problem. -/
def record (r : Reader) (n : Note) : Reader :=
  match n.problem? with
  | some p => { r with latest := p :: r.latest }
  | none => r

/-- Reads one more document, and gives the whole reading.  The problems of the document before it
    are dropped only once there is a text. -/
def next (r : Reader) (s : Source) : Reader × Except ReadFault Reading :=
  match Reading.ofSource s with
  | .ok reading => (reading.notes.foldl record { r with latest := [] }, .ok reading)
  | .error fault => (r, .error fault)

/-- Reads one more document. -/
def read (r : Reader) (s : Source) : Reader × Except ReadFault (Option Description) :=
  let (after, result) := r.next s
  (after, result.map Reading.description?)

/-- Reads documents one after the other: the reader and the result after each of them. -/
def readAll (r : Reader) : List Source → List (Reader × Except ReadFault (Option Description))
  | [] => []
  | s :: rest =>
    let next := r.read s
    next :: next.1.readAll rest

/-- The reader after reading documents one after the other. -/
def afterAll (r : Reader) (sources : List Source) : Reader :=
  sources.foldl (fun r s => (r.read s).1) r

end Reader

end ProjectFile
