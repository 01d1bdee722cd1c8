import ProjectFile.Uri.Percent
import ProjectFile.Uri.Scheme

/-! # Reading paths

A path is read segment by segment.  A segment of one dot is passed over, and one of two dots
takes back the segment before it; either leaves an empty segment at the end of a path.  In a file
URI a first segment of a letter and `:` or `|` is a drive, which no dots take back. -/

namespace ProjectFile.Uri

/-- Tabs and line breaks are passed over anywhere in a URI. -/
def isBreak (c : Char) : Bool :=
  c == '\t' || c == '\n' || c == '\r'

/-- A text without tabs and line breaks. -/
def dropBreaks (s : List Char) : List Char :=
  s.filter fun c => !isBreak c

/-- A text without the tabs and line breaks at its start. -/
def skipBreaks (s : List Char) : List Char :=
  s.dropWhile isBreak

/-- Whether a segment is one dot, which may be percent-encoded. -/
def isSingleDot (segment : List Char) : Bool :=
  [".", "%2e"].contains (String.ofList (segment.map Char.toLower))

/-- Whether a segment is two dots, each of which may be percent-encoded. -/
def isDoubleDot (segment : List Char) : Bool :=
  ["..", ".%2e", "%2e.", "%2e%2e"].contains (String.ofList (segment.map Char.toLower))

/-- Whether a text is a letter and `:` or `|`. -/
def isDrive : List Char → Bool
  | [letter, mark] => letter.isAlpha && (mark == ':' || mark == '|')
  | _ => false

/-- Whether a text starts with a drive that nothing else continues. -/
def startsWithDrive : List Char → Bool
  | [letter, mark] => isDrive [letter, mark]
  | letter :: mark :: c :: _ => isDrive [letter, mark] && "/\\?#".toList.contains c
  | _ => false

/-- The segments read so far, latest first, and whether the first of them is a drive, next to
    which there is no host. -/
structure Walk where
  segments : List (List Char) := []
  onDrive : Bool := false
deriving DecidableEq, Repr

/-- One more segment. -/
def Walk.push (w : Walk) (segment : List Char) : Walk :=
  { w with segments := segment :: w.segments }

/-- Takes back the last segment, unless it is a drive. -/
def Walk.pop (w : Walk) : Walk :=
  match w.segments with
  | [] => w
  | last :: before => if startsWithDrive last then w else { w with segments := before }

/-- In a path that starts with a drive and a tab or line break, the two characters of the drive
    are a segment of their own; this is what follows them. -/
def afterBrokenDrive? (raw : List Char) : Option (List Char × List Char) :=
  match skipBreaks raw with
  | [] => none
  | letter :: rest =>
    match skipBreaks rest with
    | [] => none
    | mark :: rest =>
      -- The break has to follow the colon at once, but others may stand anywhere.
      let after := dropBreaks rest
      if letter.isAlpha && mark == ':' && (rest.head?.map isBreak).getD false && after != [] then
        some ([letter, mark], after)
      else none

/-- Reads one segment, which is the last one of its path or not. -/
def Walk.segment (kind : SchemeKind) (isLast : Bool) (w : Walk) (raw : List Char) : Walk :=
  let segment := encode pathSet (dropBreaks raw)
  let close (w : Walk) : Walk := if isLast then w.push [] else w
  -- Only the first segment of a file URI may be a drive.
  let atDrive := kind == .file && w.segments.isEmpty
  match if atDrive then afterBrokenDrive? raw else none with
  | some (drive, after) => (w.push drive).push (encode pathSet after)
  | none =>
    if isDoubleDot segment then close w.pop
    else if isSingleDot segment then close w
    else if atDrive && isDrive segment then
      { segments := [segment.take 1 ++ [':']], onDrive := true }
    else w.push segment

/-- Reads a list of segments. -/
def Walk.run (kind : SchemeKind) (w : Walk) : List (List Char) → Walk
  | [] => w
  | raw :: rest => (w.segment kind rest.isEmpty raw).run kind rest

/-- The pieces of a path between its separators. -/
def pieces (kind : SchemeKind) : List Char → List (List Char)
  | [] => [[]]
  | c :: rest =>
    if kind.isSeparator c then [] :: pieces kind rest
    else
      match pieces kind rest with
      | [] => [[c]]
      | piece :: others => (c :: piece) :: others

/-- The segments of a file path: empty ones at the start are left out, as long as one segment
    stays. -/
def dropEmptyStart (segments : List (List Char)) : List (List Char) :=
  match segments.dropWhile List.isEmpty with
  | [] => [[]]
  | kept => kept

/-- The segments of the text after the `/` at the start of a path, and whether the first of them
    is a drive. -/
def readSegments (kind : SchemeKind) (s : List Char) : List (List Char) × Bool :=
  let walk := Walk.run kind {} (pieces kind s)
  let segments := walk.segments.reverse
  (if kind = .file then dropEmptyStart segments else segments, walk.onDrive)

end ProjectFile.Uri
