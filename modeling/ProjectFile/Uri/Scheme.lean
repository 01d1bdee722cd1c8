/-! # Schemes

How a URI is read depends on its scheme in three ways: the schemes of the web are *special*, in
that they have an authority and take `\` for `/`; `file` is special, and its host may be left
out; all others follow the general rules. -/

namespace ProjectFile.Uri

/-- How the URIs of a scheme are read. -/
inductive SchemeKind where
  | file
  /-- A special scheme, with the port that it implies. -/
  | web (defaultPort : Nat)
  | general
deriving DecidableEq, Repr

/-- The kind of a scheme, given in lower case. -/
def SchemeKind.ofName (scheme : String) : SchemeKind :=
  if scheme = "file" then .file
  else if scheme = "http" ∨ scheme = "ws" then .web 80
  else if scheme = "https" ∨ scheme = "wss" then .web 443
  else if scheme = "ftp" then .web 21
  else .general

/-- The port that a scheme implies. -/
def SchemeKind.defaultPort? : SchemeKind → Option Nat
  | .web port => some port
  | _ => none

/-- Whether the scheme is special. -/
def SchemeKind.isSpecial : SchemeKind → Bool
  | .general => false
  | _ => true

/-- Whether a character parts the segments of a path. -/
def SchemeKind.isSeparator (kind : SchemeKind) (c : Char) : Bool :=
  c == '/' || (c == '\\' && kind.isSpecial)

/-- Whether a character may stand in a scheme after its first letter. -/
def isSchemeChar (c : Char) : Bool :=
  c.isAlphanum || c == '+' || c == '-' || c == '.'

/-- The scheme that a text spells, in lower case. -/
def scheme? : List Char → Option String
  | [] => none
  | c :: rest =>
    if c.isAlpha && rest.all isSchemeChar then some (String.ofList ((c :: rest).map Char.toLower))
    else none

end ProjectFile.Uri
