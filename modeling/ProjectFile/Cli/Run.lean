import ProjectFile.Cli.Failure
import ProjectFile.Cli.Invocation
import ProjectFile.Cli.Log
import ProjectFile.Document
import ProjectFile.Summary

/-! # Running commands

`check` reads files and tells which of them hold a description without problems, `show` prints
the summary of a description, and `format` writes a description anew.  A command works in any
monad with access to files; `run` gives what it prints, what it logs, and its exit code. -/

namespace ProjectFile.Cli

open ProjectFile.Text

variable [Uri.DomainNames]

/-- A command: it may fail, and logs events on the way. -/
abbrev Run (m : Type → Type) := ExceptT Failure (StateT (List Event) m)

/-- Logs an event. -/
def log [Monad m] (e : Event) : Run m Unit :=
  modify (· ++ [e])

/-- The event of a note that comes up while a description is read. -/
def noteEvent : Note → Event
  | .problem p => ⟨.warn, .reader, p.text⟩
  | .unknownElement name => ⟨.debug, .reader, s!"skip unknown element <{name}>"⟩
  | .wrongRoot name =>
    ⟨.warn, .reader, s!"expected <projectDescription> as root element, found <{name}>"⟩

variable {m : Type → Type} [Monad m] [FileAccess m]

/-- Loads the settings from the file that is named, or else from that of the user. -/
def loadSettings (path : String) : Run m Settings := do
  match ← (Settings.load? path : m _) with
  | .error fault => throw (.settings fault)
  | .ok (some settings) => pure settings
  | .ok none =>
    log ⟨.debug, .settings, s!"no configuration at {quote path}, using defaults"⟩
    pure {}

/-- Reads a file with a reader, and logs what comes up: the reader after it, and the description if
    the file holds one. -/
def readFile (reader : Reader) (path : String) : Run m (Reader × Option Description) := do
  match ← (FileAccess.openFile path : m _) with
  | .error fault => throw (.cannotOpen path fault)
  | .ok source =>
    let (after, result) := reader.next source
    match result with
    | .error fault => throw (.cannotRead path fault)
    | .ok reading =>
      reading.notes.forM fun note => log (noteEvent note)
      pure (after, reading.description?)

/-! ## Checking -/

/-- Whether a file passes a check, by what it was read as and the problems that its reader holds. -/
def passes (strict : Bool) (description? : Option Description) (problems : List Problem) : Bool :=
  description?.isSome && !(strict && !problems.isEmpty)

/-- The events with which the judgement on a file is logged. -/
def judgement (strict : Bool) (path : String) (description? : Option Description)
    (problems : List Problem) : List Event :=
  if description?.isNone then [⟨.error, .program, notADescriptionMessage path⟩]
  else
    problems.map (fun p => ⟨.warn, .program, path ++ ": " ++ p.text⟩) ++
      if passes strict description? problems then [⟨.info, .program, quote path ++ " ok"⟩] else []

/-- Checks files one after the other, all with one reader: how many of them do not pass. -/
def checkFiles (strict : Bool) (reader : Reader) : List String → Run m Nat
  | [] => pure 0
  | path :: rest => do
    let (reader, description?) ← readFile reader path
    (judgement strict path description? reader.problems).forM fun e => log e
    let failed ← checkFiles strict reader rest
    pure (if passes strict description? reader.problems then failed else failed + 1)

/-- Checks files. -/
def check (files : List String) (strict : Bool) : Run m Unit := do
  let failed ← checkFiles strict {} files
  if 0 < failed then throw (.failedCheck failed files.length)

/-! ## Showing and formatting -/

/-- Reads the description in a file. -/
def readDescription (path : String) : Run m Description := do
  match (← readFile {} path).2 with
  | some d => pure d
  | none => throw (.notADescription path)

/-- The event of a description being written. -/
def writeEvent (d : Description) (document : String) : Event :=
  let name := d.name?.getD ""
  let size := document.utf8ByteSize
  ⟨.debug, .writer, s!"write project description {quote name} ({size} bytes)"⟩

/-- Writes the description in a file anew: into another file, or as what is printed. -/
def format (file : String) (output? : Option String) (separator : LineSeparator) :
    Run m String := do
  let d ← readDescription file
  let document := d.document separator.text
  match output? with
  | none =>
    log (writeEvent d document)
    pure document
  | some output =>
    match ← (FileAccess.createFile output document.toUTF8 : m _) with
    | .error fault => throw (.cannotCreate output fault)
    | .ok () =>
      -- The document is written, so nothing can fail any more.
      log (writeEvent d document)
      log ⟨.info, .program, s!"formatted {quote file} into {quote output}"⟩
      pure ""

/-- Runs a command: what it prints. -/
def runCommand (settings : Settings) : Command → Run m String
  | .check files strict => do
    check files (strict || settings.strict)
    pure ""
  | .show file => do
    pure (← readDescription file).summary
  | .format file output? separator? =>
    format file output? (separator?.getD settings.lineSeparator)

/-- Runs an invocation, where `userSettings?` is the settings file of the user. -/
def runInvocation (userSettings? : Option String) (i : Invocation) :
    Run m String := do
  match i.settings?.or userSettings? with
  | none => throw .noSettingsPlace
  | some path => runCommand (← loadSettings path) i.command

/-! ## The program -/

/-- What a run of the program leaves, apart from files. -/
structure Outcome where
  exitCode : Nat
  printed : String := ""
  events : List Event := []
deriving DecidableEq, Repr

/-- The outcome of arguments without an invocation. -/
def refused : Refusal → Outcome
  | .misuse => { exitCode := 2 }
  | .help topic => { exitCode := 0, printed := topic.page }
  | .version => { exitCode := 0, printed := "dotproject 0.1.0\n" }

/-- The outcome of an invocation that ran. -/
def outcome : Except Failure String × List Event → Outcome
  | (.ok printed, events) => { exitCode := 0, printed, events }
  | (.error failure, events) =>
    { exitCode := 1, events := events ++ [⟨.error, .program, failure.report⟩] }

/-- Carries out an invocation. -/
def perform (userSettings? : Option String) (i : Invocation) : m Outcome := do
  return outcome (← (runInvocation userSettings? i).run.run [])

/-- Runs the program with some arguments. -/
def run (userSettings? : Option String) (arguments : List String) : m Outcome :=
  match Invocation.ofArguments arguments with
  | .error refusal => pure (refused refusal)
  | .ok invocation => perform userSettings? invocation

end ProjectFile.Cli
