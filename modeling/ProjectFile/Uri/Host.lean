import ProjectFile.Uri.Address
import ProjectFile.Uri.Percent
import ProjectFile.Uri.Scheme

/-! # Reading authorities

An authority names a host, with credentials before it and a port after it.  The host of a special
scheme is a domain or an address; that of a general scheme is any text without the characters
that have a meaning in a URI. -/

namespace ProjectFile.Uri

open ProjectFile.Text

/-! ## Hosts -/

/-- Whether a text starts like an address of 128 bits. -/
def isBracketed (s : List Char) : Bool :=
  s.head? == some '['

/-- The address of 128 bits between brackets. -/
def bracketedHost (s : List Char) : Except UriFault Host :=
  if s.getLast? = some ']' then
    match ipv6? (s.drop 1).dropLast with
    | some groups => .ok (.ipv6 groups)
    | none => .error .badIpv6
  else .error .badIpv6

/-- Whether a domain may not hold a character. -/
def inDomain (c : Char) : Bool :=
  !(c.toNat ≤ 0x20 || 0x7f ≤ c.toNat || "%#/:<>?@[\\]^|".toList.contains c)

/-- What is made of the domains that are not plain ASCII.  Such a domain is mapped by the tables of
    Unicode, and the labels that are left with other characters are encoded; labels that start with
    `xn--` are such ones.  The mapping is left open, so that what is said of URIs holds for any. -/
class DomainNames where
  /-- The ASCII form of a domain, given by its bytes, or none if there is none. -/
  toAscii? : List UInt8 → Option (List Char)

/-- The program runs without the tables: only a domain that is plain ASCII has a form. -/
instance : DomainNames where
  toAscii? _ := none

variable [DomainNames]

/-- Whether a domain in lower case has a label that is encoded. -/
def hasEncodedLabel (domain : List Char) : Bool :=
  (domain.splitOn '.').any ("xn--".toList.isPrefixOf ·)

/-- The ASCII form of a domain, given by its bytes: itself in lower case, if it is plain ASCII. -/
def asciiDomain? (bytes : List UInt8) : Option (List Char) :=
  let domain := bytes.map fun b => (Char.ofNat b.toNat).toLower
  if bytes.all (· < 0x80) && !hasEncodedLabel domain then some domain
  else DomainNames.toAscii? bytes

/-- The host of a special scheme: a domain in its ASCII form, or an address if its last part is a
    number. -/
def domainHost (s : List Char) : Except UriFault Host :=
  match asciiDomain? (decodeBytes s) with
  | none => .error .badDomain
  | some domain =>
    if domain = [] then .error .emptyHost
    else if !domain.all inDomain then .error .badDomain
    else if endsInNumber domain then
      match ipv4? domain with
      | some address => .ok (.ipv4 address)
      | none => .error .badIpv4
    else .ok (.name (String.ofList domain))

/-- Whether the host of a general scheme may not hold a character. -/
def isForbiddenInHost (c : Char) : Bool :=
  c.toNat == 0 || "\t\n\r #/:<>?@[\\]^|".toList.contains c

/-- The host of a general scheme, which may be empty. -/
def generalHost (s : List Char) : Except UriFault Host :=
  if s.any isForbiddenInHost then .error .badDomainCharacter
  else .ok (.name (String.ofList (encode isControl s)))

/-- The host that a text spells. -/
def readHost (kind : SchemeKind) (s : List Char) : Except UriFault Host :=
  if isBracketed s then bracketedHost s
  else if kind.isSpecial then domainHost s
  else generalHost s

/-- The host of a file URI.  The local host is the same as none. -/
def readFileHost (s : List Char) : Except UriFault Host :=
  if s = [] then .ok (.name "")
  else
    (readHost .file s).map fun host =>
      if host = .name "localhost" then .name "" else host

/-! ## Credentials -/

/-- A user name and a password. -/
structure Credentials where
  user : String := ""
  password : Option String := none
deriving DecidableEq, Repr

/-- Whether nothing is written for the credentials. -/
def Credentials.isEmpty (c : Credentials) : Bool :=
  c.user == "" && c.password.isNone

/-- The credentials before the `@`: a first colon parts the user name from the password.  An
    empty password is none. -/
def readCredentials (s : List Char) : Credentials where
  user := String.ofList (encode userSet (s.takeWhile (· != ':')))
  password :=
    match s.dropWhile (· != ':') with
    | _ :: c :: rest => some (String.ofList (encode userSet (c :: rest)))
    | _ => none

/-- Splits an authority at its last `@`. -/
def splitCredentials (s : List Char) : Option (List Char × List Char) :=
  match s.reverse.dropWhile (· != '@') with
  | [] => none
  | _ :: before => some (before.reverse, (s.reverse.takeWhile (· != '@')).reverse)

/-! ## Ports -/

/-- Splits a host from the colon of its port, which is not one inside brackets. -/
def splitPort (bracketed : Bool) : List Char → List Char × List Char
  | [] => ([], [])
  | c :: rest =>
    if c = ':' ∧ !bracketed then ([], c :: rest)
    else
      let (host, port) :=
        splitPort (if c = '[' then true else if c = ']' then false else bracketed) rest
      (c :: host, port)

/-- The port that the digits spell.  No digits are no port, and neither is the one that the
    scheme implies. -/
def readPort (kind : SchemeKind) (digits : List Char) : Except UriFault (Option Nat) :=
  if digits = [] then .ok none
  else
    match readDigits 10 65536 digits with
    | .error _ => .error .badPort
    | .ok port => .ok (if kind.defaultPort? = some port then none else some port)

/-- The port after the host, and what is left behind it.  Only a `\` may follow the digits. -/
def readPortPart (kind : SchemeKind) :
    List Char → Except UriFault (Option Nat × List Char)
  | [] => .ok (none, [])
  | _ :: s => do
    let digits := s.takeWhile Char.isDigit
    let rest := s.dropWhile Char.isDigit
    let port ← readPort kind digits
    if rest = [] ∨ rest.head? = some '\\' then pure (port, rest) else throw .badPort

/-! ## Authorities -/

/-- The host with its port, and what is left behind them. -/
def readHostPort (kind : SchemeKind) (credentials : Credentials) (s : List Char) :
    Except UriFault (Authority × List Char) := do
  let (hostText, portText) := splitPort false s
  if hostText = [] ∧ kind.isSpecial then throw .emptyHost
  let host ← readHost kind hostText
  -- A host is left out only together with its port and credentials.
  if host = .name "" ∧ portText ≠ [] then throw .emptyHost
  let (port, rest) ← readPortPart kind portText
  if host = .name "" ∧ !credentials.isEmpty then throw .emptyHost
  pure ({ user := credentials.user, password := credentials.password, host, port }, rest)

/-- An authority of a scheme other than `file`, and what is left behind it.  `more` says that
    something follows the authority in the URI. -/
def readAuthority (kind : SchemeKind) (more : Bool) (s : List Char) :
    Except UriFault (Authority × List Char) :=
  match splitCredentials s with
  | none => readHostPort kind {} s
  | some ([], hostText) =>
    if hostText = [] ∧ more then .error .emptyHost else readHostPort kind {} hostText
  | some (before, hostText) => readHostPort kind (readCredentials before) hostText

end ProjectFile.Uri
