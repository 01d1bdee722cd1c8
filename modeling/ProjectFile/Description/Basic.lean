import ProjectFile.Description.Arguments
import ProjectFile.Description.Links

/-! # Project descriptions

A project description names a project, and lists the projects that it refers to, the builders
that run over it, its natures, the resources linked into it, and the filters that hide resources
from it. -/

namespace ProjectFile

/-- A builder that runs over the project, with its arguments. -/
structure BuildCommand where
  name : String
  arguments : Arguments := .empty
deriving DecidableEq

/-- Decides which resources a filter is about. -/
structure Matcher where
  id : String := ""
  arguments : String := ""
deriving DecidableEq, Repr

/-- Hides resources from the project. -/
structure Filter where
  id : String := ""
  name : String := ""
  type : String := ""
  matcher? : Option Matcher := none
deriving DecidableEq, Repr

/-- A description of a project. -/
structure Description where
  name? : Option String := none
  comment : String := ""
  /-- Where the project is stored; it is never written. -/
  location? : Option Uri := none
  projects : List String := []
  natures : List String := []
  buildSpec : List BuildCommand := []
  links : Links := .empty
  filters : List Filter := []
deriving DecidableEq

namespace BuildCommand

/-- Sets an argument. -/
def setArgument (c : BuildCommand) (key : String) (value : Option String) : BuildCommand :=
  { c with arguments := c.arguments.insert key value }

/-- The value of an argument, if it is set to one. -/
def argument? (c : BuildCommand) (key : String) : Option String :=
  (c.arguments.get? key).join

/-- Whether two commands have the same name and the same value under every key. -/
def same (a b : BuildCommand) : Bool :=
  a.name == b.name && a.arguments.same b.arguments

end BuildCommand

namespace Description

/-- The description of nothing. -/
def empty : Description := {}

/-- Whether nothing but the location is set. -/
def isEmpty (d : Description) : Bool :=
  d.name?.isNone && d.comment.isEmpty && d.projects.isEmpty && d.natures.isEmpty &&
    d.buildSpec.isEmpty && d.links.isEmpty && d.filters.isEmpty

/-- Sets a link. -/
def setLink (d : Description) (link : Link) : Description :=
  { d with links := d.links.insert link }

/-- Removes the link at a path. -/
def removeLink (d : Description) (path : String) : Description :=
  { d with links := d.links.erase path }

/-- The link at a path. -/
def link? (d : Description) (path : String) : Option Link :=
  d.links.get? path

/-- Sets a link, and gives the link whose place it takes. -/
def exchangeLink (d : Description) (link : Link) : Option Link × Description :=
  (d.link? link.path, d.setLink link)

/-- Removes the link at a path, and gives it. -/
def takeLink (d : Description) (path : String) : Option Link × Description :=
  (d.link? path, d.removeLink path)

/-- The location of the link at a path. -/
def linkLocation? (d : Description) (path : String) : Option Uri :=
  (d.link? path).map Link.location

/-- Whether there are links. -/
def hasLinks (d : Description) : Bool :=
  !d.links.isEmpty

/-- Whether two lists of commands are the same, command by command. -/
def sameCommands : List BuildCommand → List BuildCommand → Bool
  | [], [] => true
  | a :: as, b :: bs => a.same b && sameCommands as bs
  | _, _ => false

/-- Whether two descriptions say the same.  The order of the arguments of a command does not
    matter; that of all other entries does. -/
def same (a b : Description) : Bool :=
  a.name? == b.name? && a.comment == b.comment && a.location? == b.location? &&
    a.projects == b.projects && a.natures == b.natures && sameCommands a.buildSpec b.buildSpec &&
    a.links == b.links && a.filters == b.filters

end Description

end ProjectFile
