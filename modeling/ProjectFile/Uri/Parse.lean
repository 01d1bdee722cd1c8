import ProjectFile.Uri.Host
import ProjectFile.Uri.Segments

/-! # Reading URIs

`Uri.parse` reads an absolute URI.  It takes what is commonly written for one, and gives it the
form in which `Uri.render` writes it: characters that a part cannot hold are encoded, dot
segments are resolved, and hosts of special schemes are in lower case. -/

namespace ProjectFile.Uri

variable [DomainNames]

/-- Whether a character belongs to what comes before the query and the fragment. -/
def inPath (c : Char) : Bool :=
  c != '?' && c != '#'

/-- Controls and spaces around a URI are not part of it. -/
def isMargin (c : Char) : Bool :=
  c.toNat ≤ 0x20

/-- A text without the controls and spaces at both ends. -/
def trimMargin (s : List Char) : List Char :=
  ((s.dropWhile isMargin).reverse.dropWhile isMargin).reverse

/-- A part of a URI, without tabs and line breaks and with the characters of a set encoded. -/
def encodePart (set : EncodeSet) (raw : List Char) : String :=
  String.ofList (encode set (dropBreaks raw))

/-- The fragment at the front of the text. -/
def readFragment : List Char → Option String
  | [] => none
  | _ :: raw => some (encodePart fragmentSet raw)

/-- The URI whose query and fragment are at the front of the text, and whose other parts are
    given. -/
def withEnd (kind : SchemeKind) (u : Uri) (s : List Char) : Uri :=
  match s with
  | '?' :: raw =>
    let set := if kind.isSpecial then specialQuerySet else querySet
    { u with
      query := some (encodePart set (raw.takeWhile (· != '#')))
      fragment := readFragment (raw.dropWhile (· != '#')) }
  | s => { u with fragment := readFragment s }

/-- The path of a text without query and fragment, after its first `/`. -/
def rootedPath (kind : SchemeKind) (s : List Char) : UriPath :=
  .rooted ((readSegments kind s).1.map String.ofList)

/-! ## File URIs -/

/-- The parts of a file URI up to its path; the path follows in `s`, after its first `/`. -/
def filePath (host : Host) (s : List Char) : Uri :=
  let (segments, onDrive) := readSegments .file s
  { scheme := "file"
    authority := some { host := if onDrive then .name "" else host }
    path := .rooted (segments.map String.ofList) }

/-- The parts of a file URI up to its path, after `file://`. -/
def readFileAuthority (s : List Char) : Except UriFault Uri := do
  let raw := s.takeWhile fun c => !SchemeKind.file.isSeparator c
  let rest := s.dropWhile fun c => !SchemeKind.file.isSeparator c
  -- A drive in the place of the host is where the path starts.
  if isDrive (dropBreaks raw) then pure (filePath (.name "") s)
  else
    let host ← readFileHost (dropBreaks raw)
    if host = .name "" then pure (filePath host rest) else pure (filePath host (rest.drop 1))

/-- The parts of a file URI up to its path, after the scheme. -/
def readFileBody (s : List Char) : Except UriFault Uri :=
  match skipBreaks s with
  | [] => .ok (filePath (.name "") [])
  | c :: rest =>
    if SchemeKind.file.isSeparator c then
      -- A host follows only two separators.
      match skipBreaks rest with
      | [] => .ok (filePath (.name "") [])
      | d :: after =>
        if SchemeKind.file.isSeparator d then readFileAuthority after
        else .ok (filePath (.name "") rest)
    else .ok (filePath (.name "") (c :: rest))

/-! ## URIs of other schemes -/

/-- The parts of a URI up to its path, after the `//` that starts its authority.  `more` says
    that a query or fragment follows. -/
def readAuthorityBody (scheme : String) (kind : SchemeKind) (more : Bool) (s : List Char) :
    Except UriFault Uri := do
  let raw := s.takeWhile fun c => !kind.isSeparator c
  let rest := s.dropWhile fun c => !kind.isSeparator c
  let (authority, left) ← readAuthority kind (more || !rest.isEmpty) (dropBreaks raw)
  -- What is left behind the port starts the path.
  let path := left ++ rest
  let path :=
    match path with
    | [] => if kind.isSpecial then .rooted [""] else .rooted []
    | c :: after => rootedPath kind (if kind.isSeparator c then after else path)
  pure { scheme, authority := some authority, path }

/-- The parts of a URI of a general scheme up to its path, after the scheme. -/
def readGeneralBody (scheme : String) (more : Bool) (s : List Char) : Except UriFault Uri :=
  match skipBreaks s with
  | '/' :: rest =>
    match skipBreaks rest with
    | '/' :: after => readAuthorityBody scheme .general more after
    | _ => .ok { scheme, path := rootedPath .general rest }
  | _ => .ok { scheme, path := .rootless (encodePart isControl s) }

/-- Whether a character is one of the slashes between a special scheme and its authority. -/
def isLeadingSlash (c : Char) : Bool :=
  c == '/' || c == '\\' || isBreak c

/-- The parts of a URI up to its path, after the scheme. -/
def readBody (scheme : String) (more : Bool) (s : List Char) : Except UriFault Uri :=
  let kind := SchemeKind.ofName scheme
  match kind with
  | .file => readFileBody s
  | .web _ => readAuthorityBody scheme kind more (s.dropWhile isLeadingSlash)
  | .general => readGeneralBody scheme more s

/-- The absolute URI that a text spells. -/
def parse (text : String) : Except UriFault Uri :=
  let s := trimMargin text.toList
  match scheme? (dropBreaks (s.takeWhile (· != ':'))), s.dropWhile (· != ':') with
  | some scheme, _ :: rest => do
    -- The path ends at a query or a fragment, wherever they end.
    let body := rest.takeWhile inPath
    let ending := rest.dropWhile inPath
    let u ← readBody scheme (!ending.isEmpty) body
    pure (withEnd (.ofName scheme) u ending)
  | _, _ => .error .relative

end ProjectFile.Uri
