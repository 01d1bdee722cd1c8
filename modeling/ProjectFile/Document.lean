import ProjectFile.Description.Basic
import ProjectFile.Location
import ProjectFile.Markup.Reference
import ProjectFile.Stream

/-! # The document of a description

A description is written as a document of nested elements, one line for each tag, indented by a
tab for each level.  The same description always gives the same lines; the line separator is
written after each of them.

Elements come in a fixed order.  Links and filters are left out if there are none. -/

namespace ProjectFile

open ProjectFile.Markup

/-- A part of a document. -/
inductive Node where
  /-- An element with a text, on one line. -/
  | leaf (name text : String)
  /-- An element with other elements, between a line for each of its tags. -/
  | block (name : String) (children : List Node)

/-- A line of a document. -/
inductive Line where
  | declaration
  | opening (depth : Nat) (name : String)
  | leaf (depth : Nat) (name text : String)
  | closing (depth : Nat) (name : String)
deriving DecidableEq, Repr

namespace Line

/-- The indentation at a depth. -/
def tabs (depth : Nat) : String :=
  String.ofList (List.replicate depth '\t')

/-- The text of a line, without its separator. -/
def render : Line → String
  | .declaration => "<?xml version=\"1.0\" encoding=\"UTF-8\"?>"
  | .opening depth name => tabs depth ++ "<" ++ name ++ ">"
  | .leaf depth name text =>
    tabs depth ++ "<" ++ name ++ ">" ++ String.ofList (escape text.toList) ++ "</" ++ name ++ ">"
  | .closing depth name => tabs depth ++ "</" ++ name ++ ">"

end Line

mutual

/-- The lines of a part at a depth. -/
def Node.lines (depth : Nat) : Node → List Line
  | .leaf name text => [.leaf depth name text]
  | .block name children =>
    .opening depth name :: (Node.allLines (depth + 1) children ++ [.closing depth name])

/-- The lines of some parts at a depth, one after the other. -/
def Node.allLines (depth : Nat) : List Node → List Line
  | [] => []
  | node :: rest => node.lines depth ++ Node.allLines depth rest

end

/-! ## The parts of a description -/

/-- The local path of a URI, if that path leads back to the same URI. -/
def Uri.writtenPath? (u : Uri) : Option String :=
  u.localPath?.filter fun path =>
    match Uri.ofLocalPath path with
    | .ok v => v == u
    | .error _ => false

/-- An argument of a command. -/
def argumentNode (entry : String × Option String) : Node :=
  .block "dictionary" [.leaf "key" entry.1, .leaf "value" (entry.2.getD "")]

/-- A build command. -/
def BuildCommand.node (c : BuildCommand) : Node :=
  .block "buildCommand"
    [.leaf "name" c.name, .block "arguments" (c.arguments.entries.map argumentNode)]

/-- The location of a link: as a local path where that says the same. -/
def locationNode (u : Uri) : Node :=
  match u.writtenPath? with
  | some path => .leaf "location" path
  | none => .leaf "locationURI" u.render

/-- The type of a link, if it has one. -/
def typeNodes : Option ResourceType → List Node
  | some type => [.leaf "type" (toString type.code)]
  | none => []

/-- A link. -/
def Link.node (l : Link) : Node :=
  .block "link" (.leaf "name" l.path :: typeNodes l.type? ++ [locationNode l.location])

/-- The matcher of a filter, if it has one. -/
def matcherNodes : Option Matcher → List Node
  | some m => [.block "matcher" [.leaf "id" m.id, .leaf "arguments" m.arguments]]
  | none => []

/-- A filter. -/
def Filter.node (f : Filter) : Node :=
  .block "filter"
    ([.leaf "id" f.id, .leaf "name" f.name, .leaf "type" f.type] ++ matcherNodes f.matcher?)

/-- A container that is left out if it holds nothing. -/
def optionalBlock (name : String) (children : List Node) : List Node :=
  if children.isEmpty then [] else [.block name children]

/-- A description. -/
def Description.node (d : Description) : Node :=
  .block "projectDescription"
    ([.leaf "name" (d.name?.getD ""),
      .leaf "comment" d.comment,
      .block "projects" (d.projects.map (.leaf "project")),
      .block "buildSpec" (d.buildSpec.map BuildCommand.node),
      .block "natures" (d.natures.map (.leaf "nature"))]
      ++ optionalBlock "linkedResources" (d.links.toList.map Link.node)
      ++ optionalBlock "filteredResources" (d.filters.map Filter.node))

/-! ## The document -/

/-- The lines of the document of a description. -/
def Description.lines (d : Description) : List Line :=
  .declaration :: d.node.lines 0

/-- The document of a description, with a separator after each line. -/
def Description.document (d : Description) (separator : String) : String :=
  String.join (d.lines.map fun line => line.render ++ separator)

/-- Why a description cannot be written: its sink does not take the document. -/
structure WriteFault where
  cause : SinkFault
deriving DecidableEq, Repr

/-- The text of a fault. -/
def WriteFault.message (_ : WriteFault) : String :=
  "failed to write project description"

/-- Writes the document of a description: what the sink takes of it, and the fault if that is
    not all. -/
def Description.write (d : Description) (separator : String) (sink : Sink) :
    ByteArray × Option WriteFault :=
  let (taken, fault?) := sink.take (d.document separator).toUTF8
  (taken, fault?.map (⟨·⟩))

end ProjectFile
