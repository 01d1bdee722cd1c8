import ProjectFile.Text.Quoted
import ProjectFile.Text.WhiteSpace
import ProjectFile.Uri.Parse

/-! # Locations

A linked resource is found at a URI, which a description may give in two forms: as a local path,
or as the URI itself.  `Uri.ofLocalPath` and `Uri.ofText` read the two forms, and
`Uri.localPath?` gives the local path of a file URI.

Local paths have either separator, repeated separators count as one, and a path is absolute when
it starts with a separator or with a drive. -/

namespace ProjectFile

open ProjectFile.Text

/-- Why a text is no location. -/
inductive LocationFault where
  | empty
  /-- The local path, as it was given, is not absolute. -/
  | relative (path : String)
  | malformed (text : String) (cause : UriFault)
deriving DecidableEq, Repr

/-- The text of a fault. -/
def LocationFault.message : LocationFault → String
  | .empty => "location is empty"
  | .relative path => s!"location {quote path} is not an absolute path"
  | .malformed text _ => s!"location {quote text} is not a valid URI"

/-- The cause of a fault, for one that has a cause. -/
def LocationFault.cause? : LocationFault → Option UriFault
  | .malformed _ cause => some cause
  | _ => none

namespace LocalPath

/-- The separator for either separator, and any other character as it is. -/
def unifySeparator (c : Char) : Char :=
  if c = '\\' then '/' else c

/-- Repeated separators taken as one; `afterSeparator` says that one comes before. -/
def collapse (afterSeparator : Bool) : List Char → List Char
  | [] => []
  | c :: rest =>
    if c = '/' then
      if afterSeparator then collapse true rest else '/' :: collapse true rest
    else c :: collapse false rest

/-- A text without a separator at its end, unless it is nothing but that separator. -/
def dropFinalSeparator (s : List Char) : List Char :=
  if 1 < s.length ∧ s.getLast? = some '/' then s.dropLast else s

/-- The canonical spelling of a local path. -/
def normalize (s : List Char) : List Char :=
  dropFinalSeparator (collapse false (s.map unifySeparator))

/-- Whether a path starts with a drive: a letter and a colon, with nothing or a separator after
    them. -/
def startsWithDrive : List Char → Bool
  | [letter, ':'] => letter.isAlpha
  | letter :: ':' :: '/' :: _ => letter.isAlpha
  | _ => false

/-- The path from the root on, for a path in its canonical spelling that is absolute. -/
def rooted? (s : List Char) : Option (List Char) :=
  if s.head? = some '/' then some s
  else if startsWithDrive s then some ('/' :: s)
  else none

/-- A percent sign in a path is no escape, so it is encoded before the path is read. -/
def encodePercent (s : List Char) : List Char :=
  s.flatMap fun c => if c = '%' then "%25".toList else [c]

end LocalPath

/-- The file URI of a local path from the root on. -/
def Uri.ofRootedPath (s : List Char) : Uri :=
  Uri.filePath (.name "") ((LocalPath.encodePercent s).drop 1)

/-- The URI of a local path. -/
def Uri.ofLocalPath (text : String) : Except LocationFault Uri :=
  let path := LocalPath.normalize (trimChars text.toList)
  if path = [] then .error .empty
  else
    match LocalPath.rooted? path with
    | some rooted => .ok (Uri.ofRootedPath rooted)
    | none => .error (.relative text)

/-- The URI that a text spells, apart from white space around it. -/
def Uri.ofText [Uri.DomainNames] (text : String) : Except LocationFault Uri :=
  let text := trim text
  (Uri.parse text).mapError (.malformed text)

/-- Whether a URI has nothing but a local path: it is a file URI without host, query and
    fragment. -/
def Uri.isLocal (u : Uri) : Bool :=
  u.scheme == "file" && u.hostless && u.query.isNone && u.fragment.isNone

/-- The local path of a URI, if it has one.  A drive at the start is not rooted. -/
def Uri.localPath? (u : Uri) : Option String := do
  guard u.isLocal
  let path ← Uri.decode? u.path.render.toList
  match path.toList with
  | '/' :: rest => if LocalPath.startsWithDrive rest then some (String.ofList rest) else some path
  | _ => some path

end ProjectFile
