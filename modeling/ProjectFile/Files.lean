import ProjectFile.Stream

/-! # Files

What the command line needs of a file system: to open a file and to create one.  `FileAccess`
says so for any monad, and `FileSystem` is the state of a file system in which both are
functions.

Paths are texts with `/` between names.  A path that does not start with `/` starts at the
working directory. -/

namespace ProjectFile

/-- Why a file cannot be used. -/
inductive FileFault where
  | notFound
  | notADirectory
  | isADirectory
  | nameTooLong
  | nulInPath
  | other (text : String)
deriving DecidableEq, Repr

/-- The text of a fault. -/
def FileFault.message : FileFault → String
  | .notFound => "No such file or directory (os error 2)"
  | .notADirectory => "Not a directory (os error 20)"
  | .isADirectory => "Is a directory (os error 21)"
  | .nameTooLong => "File name too long (os error 36)"
  | .nulInPath => "file name contained an unexpected NUL byte"
  | .other text => text

/-- A monad in which files can be opened and created. -/
class FileAccess (m : Type → Type) where
  /-- Opens a file to read it. -/
  openFile : String → m (Except FileFault Source)
  /-- Creates a file with some content, or gives a file that content. -/
  createFile : String → ByteArray → m (Except FileFault Unit)

/-! ## A file system as a value -/

/-- What is at a path. -/
inductive FileEntry where
  | file (bytes : ByteArray)
  | directory

/-- Where a file system fails by itself, as where one has no permission or where a disk is
    broken: the files that it does not open, does not read to the end, or does not create. -/
structure Faults where
  opening : List String → Option FileFault := fun _ => none
  reading : List String → Option String := fun _ => none
  creating : List String → Option FileFault := fun _ => none

/-- A file system: what is at which path, where a path is given by the names from the root
    down.  The root itself is always there. -/
structure FileSystem where
  entries : List (List String × FileEntry) := []
  working : List String := []
  faults : Faults := {}

namespace FileSystem

/-- What is at a path. -/
def get? (fs : FileSystem) (path : List String) : Option FileEntry :=
  if path = [] then some .directory else fs.entries.lookup path

/-- Puts an entry at a path. -/
def put (fs : FileSystem) (path : List String) (e : FileEntry) : FileSystem :=
  { fs with entries := (path, e) :: fs.entries.filter (·.1 != path) }

/-- The names of a path.  Several slashes in a row part names as one does. -/
def names (path : String) : List String :=
  ((path.toList.splitOn '/').filter (· ≠ [])).map String.ofList

/-- The longest name that a file may have, in bytes. -/
def longestName : Nat := 255

/-- The longest path, in bytes. -/
def longestPath : Nat := 4095

/-- Goes from a directory to where names lead, which may be nowhere: the path that they lead to.
    Every name but the last has to be that of a directory. -/
def walk (fs : FileSystem) : List String → List String → Except FileFault (List String)
  | here, [] => .ok here
  | here, name :: rest =>
    match fs.get? here with
    | none => .error .notFound
    | some (.file _) => .error .notADirectory
    | some .directory =>
      if name = "." then walk fs here rest
      -- The root is its own parent.
      else if name = ".." then walk fs here.dropLast rest
      else if longestName < name.utf8ByteSize then .error .nameTooLong
      else walk fs (here ++ [name]) rest

/-- Where the names of a path start. -/
def start (fs : FileSystem) (path : String) : List String :=
  if path.startsWith "/" then [] else fs.working

/-- Some texts are no paths at all. -/
def checkPath (path : String) : Except FileFault Unit :=
  if path.toList.contains '\x00' then .error .nulInPath
  else if path = "" then .error .notFound
  else if longestPath < path.utf8ByteSize then .error .nameTooLong
  else .ok ()

/-- The path that a text leads to; a slash at its end says that it is that of a directory. -/
def resolve (fs : FileSystem) (path : String) : Except FileFault (List String) := do
  checkPath path
  fs.walk (fs.start path) (names path ++ if path.endsWith "/" then ["."] else [])

/-- Opens what is at a path.  A directory can be opened, but not read. -/
def openAt (fs : FileSystem) (target : List String) : Except FileFault Source :=
  match fs.get? target, fs.faults.opening target with
  | none, _ => .error .notFound
  | some _, some fault => .error fault
  | some (.file bytes), none => .ok { bytes, failure? := fs.faults.reading target }
  | some .directory, none =>
    .ok { bytes := .empty, failure? := some FileFault.isADirectory.message }

/-- Opens a file. -/
def openFile (fs : FileSystem) (path : String) : Except FileFault Source := do
  fs.openAt (← fs.resolve path)

/-- The path that a text gives for a file that may be new.  Only the way to its last name has to
    be there, and what only directories are called is no path for a file. -/
def resolveNew (fs : FileSystem) (path : String) : Except FileFault (List String) := do
  checkPath path
  match (names path).getLast? with
  | none => throw .isADirectory
  | some last =>
    if last = "." ∨ last = ".." then
      -- The way there is checked first, as its faults come before this one.
      let _ ← fs.walk (fs.start path) (names path)
      throw .isADirectory
    let parent ← fs.walk (fs.start path) ((names path).dropLast ++ ["."])
    if path.endsWith "/" then throw .isADirectory
    fs.walk parent [last]

/-- Creates a file at a path, or gives the one there a new content. -/
def createAt (fs : FileSystem) (target : List String) (bytes : ByteArray) :
    Except FileFault FileSystem :=
  match fs.get? target, fs.faults.creating target with
  | some .directory, _ => .error .isADirectory
  | _, some fault => .error fault
  | _, none => .ok (fs.put target (.file bytes))

/-- Creates a file, or gives one a new content. -/
def createFile (fs : FileSystem) (path : String) (bytes : ByteArray) :
    Except FileFault FileSystem := do
  fs.createAt (← fs.resolveNew path) bytes

instance : FileAccess (StateM FileSystem) where
  openFile path := do return (← get).openFile path
  createFile path bytes := do
    match (← get).createFile path bytes with
    | .ok fs => set fs; return .ok ()
    | .error fault => return .error fault

/-- The file system with a directory, and those above it. -/
def withDirectory (fs : FileSystem) (path : List String) : FileSystem :=
  (List.range path.length).foldl (fun fs k => fs.put (path.take (k + 1)) .directory) fs

/-- The file system with a file, and the directories above it. -/
def withFile (fs : FileSystem) (path : List String) (bytes : ByteArray) : FileSystem :=
  (fs.withDirectory path.dropLast).put path (.file bytes)

/-- The files of a file system that another one does not have with the same content. -/
def filesNotIn (fs old : FileSystem) : List (List String × ByteArray) :=
  fs.entries.filterMap fun (path, e) =>
    match e with
    | .file bytes =>
      match old.get? path with
      | some (.file before) => if before.toList = bytes.toList then none else some (path, bytes)
      | _ => some (path, bytes)
    | .directory => none

end FileSystem

end ProjectFile
