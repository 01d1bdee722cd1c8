/-! # Options and help

The options of the command line, and the pages of help about them.  There is a page about the
program and one about each command; it lists the operands and the options that may be given
there. -/

namespace ProjectFile.Cli

/-- What help may be asked about: the program, or one of its commands. -/
inductive Topic where
  | program
  | check
  | show
  | format
  | help
deriving DecidableEq, Repr

/-- The options. -/
inductive OptionName where
  | settings
  | strict
  | output
  | separator
  | help
  | version
deriving DecidableEq, Repr

/-- How an option is written, what its value is called if it has one, and what it is for. -/
structure OptionForm where
  name : OptionName
  short : Char
  long : String
  value? : Option String
  about : String

/-! ## What may be given -/

/-- The option that names a settings file. -/
def settingsOption : OptionForm :=
  ⟨.settings, 'c', "config", some "path", "Path to configuration file"⟩

/-- The option that makes problems fail a check. -/
def strictOption : OptionForm :=
  ⟨.strict, 's', "strict", none, "Fail on any recorded read problem"⟩

/-- The option that names a file to write to. -/
def outputOption : OptionForm :=
  ⟨.output, 'o', "output", some "path", "Write result to file instead of standard output"⟩

/-- The option that names a line separator. -/
def separatorOption : OptionForm :=
  ⟨.separator, 'l', "line-separator", some "separator",
    "Line separator to use: lf, crlf, or native"⟩

/-- The option that asks for help. -/
def helpOption : OptionForm :=
  ⟨.help, 'h', "help", none, "Print help"⟩

/-- The option that asks for the version. -/
def versionOption : OptionForm :=
  ⟨.version, 'V', "version", none, "Print version"⟩

namespace Topic

/-- The topic that the name of a command stands for. -/
def ofName? (name : String) : Option Topic :=
  if name = "check" then some .check
  else if name = "show" then some .show
  else if name = "format" then some .format
  else if name = "help" then some .help
  else none

/-- The options that may be given: before the command, or after it. -/
def options : Topic → List OptionForm
  | .program => [settingsOption, helpOption, versionOption]
  | .check => [settingsOption, strictOption, helpOption]
  | .show => [settingsOption, helpOption]
  | .format => [settingsOption, outputOption, separatorOption, helpOption]
  | .help => []

/-- What a command does. -/
def about? : Topic → Option String
  | .program => none
  | .check => some "Check project description files for problems"
  | .show => some "Show summary of project description"
  | .format => some "Rewrite project description in canonical layout"
  | .help => some "Print this message or the help of the given subcommand(s)"

/-- The form of the arguments. -/
def usage : Topic → String
  | .program => "dotproject [options] <dotproject-command>"
  | .check => "dotproject check [options] <file>..."
  | .show => "dotproject show [options] <file>"
  | .format => "dotproject format [options] <file>"
  | .help => "dotproject help [COMMAND]..."

/-- The commands with what they do. -/
def commandRows : Topic → List (String × String)
  | .program =>
    [("check", .check), ("show", .show), ("format", .format), ("help", .help)].map
      fun (name, topic) => (name, (about? topic).getD "")
  | _ => []

/-- The operands with what they are. -/
def operandRows : Topic → List (String × String)
  | .program => []
  | .check => [("<file>...", "Project description files to check")]
  | .show => [("<file>", "Project description file to show")]
  | .format => [("<file>", "Project description file to format")]
  | .help => [("[COMMAND]...", "Print help for the subcommand(s)")]

end Topic

/-! ## Pages -/

/-- How help shows the form of an option. -/
def OptionForm.shown (f : OptionForm) : String :=
  let value := match f.value? with
    | some value => s!" <{value}>"
    | none => ""
  s!"-{f.short}, --{f.long}{value}"

/-- The lines of a table with a heading, whose second column starts at the same place in every
    row.  There is nothing to show of an empty table. -/
def table? (heading : String) (rows : List (String × String)) : Option String :=
  let width := (rows.map fun row => row.1.length).foldl max 0
  let line := fun (left, right) =>
    s!"  {left}" ++ String.ofList (List.replicate (width - left.length) ' ') ++ s!"  {right}\n"
  if rows = [] then none else some (s!"{heading}:\n" ++ String.join (rows.map line))

/-- The page about a topic. -/
def Topic.page (t : Topic) : String :=
  let head := (t.about?.map (· ++ "\n")).toList ++ [s!"Usage: {t.usage}\n"]
  let tables :=
    [table? "Commands" t.commandRows,
     table? "Arguments" t.operandRows,
     table? "Options" (t.options.map fun f => (f.shown, f.about))]
  "\n".intercalate (head ++ tables.filterMap id)

end ProjectFile.Cli
