/-! # Uniform resource identifiers

The parts of an absolute URI, in the form in which they are written: percent-encoded, with the
scheme in lower case and without a port that the scheme implies.  `Uri.render` writes the parts
one after the other; a path that would be taken for an authority is set apart by `/.`. -/

namespace ProjectFile

/-- The host of an authority. -/
inductive Host where
  /-- A name; the empty name stands for no host. -/
  | name (text : String)
  | ipv4 (address : Nat)
  /-- The eight groups of an address of 128 bits. -/
  | ipv6 (groups : List Nat)
deriving DecidableEq, Repr

/-- Where a resource is to be asked for. -/
structure Authority where
  user : String := ""
  password : Option String := none
  host : Host
  port : Option Nat := none
deriving DecidableEq, Repr

/-- The path of a URI. -/
inductive UriPath where
  /-- The segments of a path, each written after a `/`. -/
  | rooted (segments : List String)
  /-- A path that does not start with `/` and has no segments. -/
  | rootless (text : String)
deriving DecidableEq, Repr

/-- An absolute URI. -/
structure Uri where
  scheme : String
  authority : Option Authority := none
  path : UriPath
  query : Option String := none
  fragment : Option String := none
deriving DecidableEq, Repr

/-! ## Written form -/

/-- The four bytes of an address, between dots. -/
def renderIpv4 (address : Nat) : String :=
  let byte (k : Nat) := toString (address / Nat.pow 256 k % 256)
  byte 3 ++ "." ++ byte 2 ++ "." ++ byte 1 ++ "." ++ byte 0

/-- The number of zeros at the start of a list. -/
def leadingZeros (groups : List Nat) : Nat :=
  (groups.takeWhile (· == 0)).length

/-- Where the first of the longest runs of zeros starts, and how long it is. -/
def longestZeroRun : List Nat → Nat × Nat
  | [] => (0, 0)
  | g :: rest =>
    let here := leadingZeros (g :: rest)
    let (start, length) := longestZeroRun rest
    if length ≤ here then (0, here) else (start + 1, length)

/-- The groups in hexadecimal, between colons. -/
def renderGroups (groups : List Nat) : String :=
  ":".intercalate (groups.map fun g => String.ofList (Nat.toDigits 16 g))

/-- The groups of an address; the first of the longest runs of two or more zeros is left out. -/
def renderIpv6 (groups : List Nat) : String :=
  let (start, length) := longestZeroRun groups
  if length < 2 then renderGroups groups
  else renderGroups (groups.take start) ++ "::" ++ renderGroups (groups.drop (start + length))

/-- The written form of a host. -/
def Host.render : Host → String
  | .name text => text
  | .ipv4 address => renderIpv4 address
  | .ipv6 groups => "[" ++ renderIpv6 groups ++ "]"

/-- The written form of an authority. -/
def Authority.render (a : Authority) : String :=
  let password := match a.password with
    | some p => ":" ++ p
    | none => ""
  let credentials := if a.user = "" ∧ a.password = none then "" else a.user ++ password ++ "@"
  let port := match a.port with
    | some p => ":" ++ toString p
    | none => ""
  credentials ++ a.host.render ++ port

/-- The written form of a path. -/
def UriPath.render : UriPath → String
  | .rooted segments => String.join (segments.map ("/" ++ ·))
  | .rootless text => text

/-- Whether the written form of a path starts with two slashes. -/
def UriPath.startsLikeAuthority : UriPath → Bool
  | .rooted ("" :: _ :: _) => true
  | _ => false

/-- The written form of a URI. -/
def Uri.render (u : Uri) : String :=
  let authority := match u.authority with
    | some a => "//" ++ a.render
    | none => if u.path.startsLikeAuthority then "/." else ""
  let query := match u.query with
    | some q => "?" ++ q
    | none => ""
  let fragment := match u.fragment with
    | some f => "#" ++ f
    | none => ""
  u.scheme ++ ":" ++ authority ++ u.path.render ++ query ++ fragment

/-- Whether a URI names no host. -/
def Uri.hostless (u : Uri) : Bool :=
  match u.authority with
  | none => true
  | some a => decide (a.host = .name "")

/-- The reasons for which a text is no absolute URI. -/
inductive UriFault where
  | relative
  | emptyHost
  | badDomain
  | badDomainCharacter
  | badPort
  | badIpv4
  | badIpv6
deriving DecidableEq, Repr

/-- The text of a fault. -/
def UriFault.message : UriFault → String
  | .relative => "relative URL without a base"
  | .emptyHost => "empty host"
  | .badDomain => "invalid international domain name"
  | .badDomainCharacter => "invalid domain character"
  | .badPort => "invalid port number"
  | .badIpv4 => "invalid IPv4 address"
  | .badIpv6 => "invalid IPv6 address"

end ProjectFile
