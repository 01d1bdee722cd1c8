import ProjectFile.Description.Basic
import ProjectFile.Text.Quoted

/-! # The summary of a description

A description for the eye: one line for each entry, under a heading for each list that is not
empty. -/

namespace ProjectFile

open ProjectFile.Text

/-- A list under its heading, or nothing if the list is empty. -/
def headed (heading : String) (lines : List String) : List String :=
  if lines.isEmpty then [] else heading :: lines

/-- The lines of a command: its name, and its arguments below. -/
def BuildCommand.summary (c : BuildCommand) : List String :=
  let argument := fun (key, value) => "    " ++ key ++ " = " ++ Option.getD value ""
  s!"  {c.name}" :: c.arguments.entries.map argument

/-- The line of a link. -/
def Link.summary (l : Link) : String :=
  let kind := (l.type?.map ResourceType.name).getD "unknown"
  s!"  {l.path} ({kind}) -> {l.location.render}"

/-- The line of a filter. -/
def Filter.summary (f : Filter) : String :=
  let matcher := (f.matcher?.map fun m => m.id ++ " " ++ m.arguments).getD ""
  s!"  [{f.id}] {quote f.name} type {f.type} {matcher}"

/-- The lines of a description. -/
def Description.summaryLines (d : Description) : List String :=
  let name := d.name?.getD "<none>"
  let comment := d.comment
  [s!"name: {name}"]
    ++ (if d.comment.isEmpty then [] else [s!"comment: {comment}"])
    ++ headed "projects:" (d.projects.map ("  " ++ ·))
    ++ headed "builders:" (d.buildSpec.flatMap BuildCommand.summary)
    ++ headed "natures:" (d.natures.map ("  " ++ ·))
    ++ headed "links:" (d.links.toList.map Link.summary)
    ++ headed "filters:" (d.filters.map Filter.summary)

/-- The summary of a description. -/
def Description.summary (d : Description) : String :=
  String.join (d.summaryLines.map (· ++ "\n"))

end ProjectFile
