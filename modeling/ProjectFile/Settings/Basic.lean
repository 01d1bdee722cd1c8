import ProjectFile.Text.Quoted

/-! # Settings

Settings tune how descriptions are read and written.  Every setting has a default.
`Settings.render` is the text of a settings file that holds them. -/

namespace ProjectFile

open ProjectFile.Text

/-- What is written after each line of a document. -/
inductive LineSeparator where
  | lf
  | crlf
  /-- The separator of the system, which is that of `lf`. -/
  | native
deriving DecidableEq, Repr

namespace LineSeparator

/-- The name of a separator in settings and arguments. -/
def name : LineSeparator → String
  | .lf => "lf"
  | .crlf => "crlf"
  | .native => "native"

/-- The separator with a name. -/
def ofName? (s : String) : Option LineSeparator :=
  if s = "lf" then some .lf
  else if s = "crlf" then some .crlf
  else if s = "native" then some .native
  else none

/-- The characters of a separator. -/
def text : LineSeparator → String
  | .lf => "\n"
  | .crlf => "\r\n"
  | .native => "\n"

/-- What is said of a name that no separator has. -/
def unknownMessage (s : String) : String :=
  s!"unknown line separator {quote s}, expected \"lf\", \"crlf\", or \"native\""

end LineSeparator

/-- The settings. -/
structure Settings where
  /-- The separator of written documents. -/
  lineSeparator : LineSeparator := .lf
  /-- Whether a problem of a reading fails a check. -/
  strict : Bool := false
deriving DecidableEq, Repr

/-- The text of a settings file. -/
def Settings.render (s : Settings) : String :=
  "[writer]\nline_separator = \"" ++ s.lineSeparator.name ++ "\"\n\n[reader]\nstrict = " ++
    (if s.strict then "true" else "false") ++ "\n"

/-! ## Where the settings are -/

/-- A path below another one. -/
def joinPath (base part : String) : String :=
  if base.isEmpty || base.endsWith "/" then base ++ part else base ++ "/" ++ part

/-- Where the settings file of a user is, given the home directory and the directory for
    settings, if that is set.  A directory that is not absolute is ignored. -/
def Settings.defaultPath (home : String) (directory? : Option String) : String :=
  let directory := match directory? with
    | some d => if d.startsWith "/" then d else joinPath home ".config"
    | none => joinPath home ".config"
  joinPath (joinPath directory "dotproject") "config.toml"

end ProjectFile
