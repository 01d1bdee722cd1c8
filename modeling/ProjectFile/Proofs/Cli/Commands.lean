import ProjectFile.Cli.Run
import ProjectFile.Proofs.Files.Frame
import ProjectFile.Proofs.Reading.Session

/-!
# Commands over a file system

A command logs on its way, and reads files through a reader that it may have used before.  What it
gives depends on neither: `Gives` says what a command ends with and which file system it leaves,
whatever has been logged.  Settings and files are read as a new reader reads them, and reading
leaves the file system as it is.

## Key results

- `Gives.bind`, `Gives.bind_error`: one command after another
- `gives_readFile`, `gives_readFile_error`: a file is read as by a new reader
- `ofArguments_of_readCommand`: the invocation of a command that comes first
- `gives_runInvocation`, `gives_runInvocation_error`: an invocation runs its command with the
  settings that are loaded
- `perform_of_gives`, `perform_of_gives_error`: the exit code of an invocation
-/

namespace ProjectFile

/-! ## What files say -/

namespace FileSystem

/-- What a new reader makes of a file: its problems, and the description if there is one.  Nothing
    if the file cannot be opened or has no text. -/
def readAlone? [Uri.DomainNames] (fs : FileSystem) (path : String) :
    Option (List Problem × Option Description) :=
  match fs.openFile path with
  | .error _ => none
  | .ok source =>
    match ({} : Reader).read source with
    | (_, .error _) => none
    | (after, .ok description?) => some (after.problems, description?)

/-- The description that a file holds, if it can be read and holds one. -/
def description? [Uri.DomainNames] (fs : FileSystem) (path : String) : Option Description :=
  (fs.readAlone? path).bind (·.2)

/-- What loading settings from a file gives: nothing where no file is. -/
def loadSettings (fs : FileSystem) (path : String) : Except LoadFault (Option Settings) :=
  match fs.openFile path with
  | .error .notFound => .ok none
  | .error fault => .error (.unread path fault.message)
  | .ok source => (Settings.ofSource path source).map some

/-- The settings that are loaded, if there is a path for them and they can be loaded.  Where no file
    is, all have their defaults. -/
def settings? (fs : FileSystem) (path? : Option String) : Option Settings :=
  path?.bind fun path => (fs.loadSettings path).toOption.map (·.getD {})

end FileSystem

namespace Cli

variable {fs mid after : FileSystem} {α β : Type}

/-! ## What a command gives -/

/-- Whether a command ends with a result and leaves a file system, whatever is logged before it. -/
def Gives (c : Run (StateM FileSystem) α) (fs : FileSystem) (result : Except Failure α)
    (after : FileSystem) : Prop :=
  ∀ events, ∃ events', (c.run.run events).run fs = ((result, events'), after)

/-- A result alone changes nothing. -/
theorem gives_pure (a : α) (fs : FileSystem) : Gives (pure a) fs (.ok a) fs :=
  fun events => ⟨events, rfl⟩

/-- A failure changes nothing. -/
theorem gives_throw (failure : Failure) (fs : FileSystem) :
    Gives (throw failure : Run (StateM FileSystem) α) fs (.error failure) fs :=
  fun events => ⟨events, rfl⟩

/-- What is logged does not change what is given. -/
theorem gives_log (e : Event) (fs : FileSystem) : Gives (log e) fs (.ok ()) fs :=
  fun events => ⟨events ++ [e], rfl⟩

/-- What is done with files gives its result, and leaves what it leaves. -/
theorem gives_lift {x : StateM FileSystem α} {a : α} (ran : x.run fs = (a, after)) :
    Gives (liftM x) fs (.ok a) after := by
  intro events
  refine ⟨events, ?_⟩
  show (let (a, after) := x.run fs; ((Except.ok a, events), after)) = _
  rw [ran]

/-- A command that goes on with the result of another one. -/
theorem Gives.bind {c : Run (StateM FileSystem) α} {f : α → Run (StateM FileSystem) β} {a : α}
    {result : Except Failure β} (first : Gives c fs (.ok a) mid)
    (next : Gives (f a) mid result after) : Gives (c >>= f) fs result after := by
  intro events
  obtain ⟨events', ran⟩ := first events
  obtain ⟨events'', goesOn⟩ := next events'
  refine ⟨events'', ?_⟩
  rw [ExceptT.run_bind, StateT.run_bind, StateT.run_bind, ran]
  exact goesOn

/-- A failure ends the command. -/
theorem Gives.bind_error {c : Run (StateM FileSystem) α} {f : α → Run (StateM FileSystem) β}
    {failure : Failure} (first : Gives c fs (.error failure) after) :
    Gives (c >>= f) fs (.error failure) after := by
  intro events
  obtain ⟨events', ran⟩ := first events
  refine ⟨events', ?_⟩
  rw [ExceptT.run_bind, StateT.run_bind, StateT.run_bind, ran]
  rfl

/-- Opening a file leaves the file system as it is. -/
private theorem gives_openFile (fs : FileSystem) (path : String) :
    Gives (liftM (FileAccess.openFile path : StateM FileSystem _)) fs (.ok (fs.openFile path)) fs :=
  gives_lift rfl

/-- Logging any number of events changes nothing. -/
theorem gives_forM_log (xs : List α) (event : α → Event) (fs : FileSystem) :
    Gives (xs.forM fun x => log (event x)) fs (.ok ()) fs := by
  induction xs with
  | nil => exact gives_pure () fs
  | cons x rest ih => exact (gives_log (event x) fs).bind ih

/-! ## Reading files -/

section Reading

variable {path : String} {source : Source} {text : String}

section

variable [Uri.DomainNames]

/-- A file with a text is read as the text. -/
theorem readAlone?_of_text (opened : fs.openFile path = .ok source) (h : source.text = .ok text) :
    fs.readAlone? path =
      some ((Reading.ofText text).problems, (Reading.ofText text).description?) := by
  obtain ⟨after, problems, read⟩ := Reader.read_of_text h
  rw [FileSystem.readAlone?, opened]
  simp only [read, problems]

/-- A file that fails or has no text is not read. -/
private theorem readAlone?_of_fault {cause : SourceFault} (opened : fs.openFile path = .ok source)
    (h : source.text = .error cause) : fs.readAlone? path = none := by
  rw [FileSystem.readAlone?, opened]
  simp only [Reader.read_of_fault h]

/-- A file that cannot be opened is not read. -/
private theorem readAlone?_of_error {fault : FileFault} (h : fs.openFile path = .error fault) :
    fs.readAlone? path = none := by
  rw [FileSystem.readAlone?, h]

/-- A file that is read has a text, and is read as that. -/
theorem exists_text_of_readAlone? {problems : List Problem} {description? : Option Description}
    (read : fs.readAlone? path = some (problems, description?)) :
    ∃ source text, fs.openFile path = .ok source ∧ source.text = .ok text ∧
      problems = (Reading.ofText text).problems ∧
      description? = (Reading.ofText text).description? := by
  cases opened : fs.openFile path with
  | error fault => rw [readAlone?_of_error opened] at read; cases read
  | ok source =>
    cases h : source.text with
    | error cause => rw [readAlone?_of_fault opened h] at read; cases read
    | ok text =>
      rw [readAlone?_of_text opened h] at read
      cases read
      exact ⟨source, text, rfl, h, rfl, rfl⟩

/-- A file is read as by a new reader, whatever the reader has read before. -/
theorem gives_readFile (reader : Reader) {problems : List Problem}
    {description? : Option Description} (read : fs.readAlone? path = some (problems, description?)) :
    ∃ after : Reader, after.problems = problems ∧
      Gives (readFile reader path) fs (.ok (after, description?)) fs := by
  obtain ⟨source, text, opened, h, rfl, rfl⟩ := exists_text_of_readAlone? read
  obtain ⟨after, problems, next⟩ := Reader.next_of_text h
  refine ⟨after, problems, (gives_openFile fs path).bind ?_⟩
  simp only [opened, next]
  exact (gives_forM_log _ noteEvent fs).bind (gives_pure _ fs)

/-- A file that cannot be read ends the command, whatever the reader has read before. -/
theorem gives_readFile_error (reader : Reader) (unread : fs.readAlone? path = none) :
    ∃ failure, Gives (readFile reader path) fs (.error failure) fs := by
  -- The file cannot be opened, or it fails or has no text where it is read.
  cases opened : fs.openFile path with
  | error fault =>
    refine ⟨.cannotOpen path fault, (gives_openFile fs path).bind ?_⟩
    rw [opened]
    exact gives_throw _ fs
  | ok source =>
    cases h : source.text with
    | error cause =>
      refine ⟨.cannotRead path ⟨cause⟩, (gives_openFile fs path).bind ?_⟩
      simp only [opened, Reader.next_of_fault h]
      exact gives_throw _ fs
    | ok text =>
      rw [readAlone?_of_text opened h] at unread
      cases unread

/-- A file that holds a description gives it. -/
theorem gives_readDescription {d : Description} (holds : fs.description? path = some d) :
    Gives (readDescription path) fs (.ok d) fs := by
  obtain ⟨⟨problems, _⟩, read, rfl⟩ := Option.bind_eq_some_iff.mp holds
  obtain ⟨_, -, reads⟩ := gives_readFile {} read
  exact reads.bind (gives_pure d fs)

/-- A file that holds none ends the command. -/
theorem gives_readDescription_error (nothing : fs.description? path = none) :
    ∃ failure, Gives (readDescription path) fs (.error failure) fs := by
  cases read : fs.readAlone? path with
  | none =>
    obtain ⟨failure, fails⟩ := gives_readFile_error {} read
    exact ⟨failure, fails.bind_error⟩
  | some readout =>
    obtain ⟨problems, description?⟩ := readout
    rw [FileSystem.description?, read, Option.bind_some] at nothing
    cases nothing
    obtain ⟨_, -, reads⟩ := gives_readFile {} read
    exact ⟨.notADescription path, reads.bind (gives_throw _ fs)⟩

end

end Reading

/-! ## Arguments -/

section Arguments

variable {topic : Topic} {g : Given} {file : String}

/-- An operand is taken if it is not empty and there is room for it. -/
theorem addOperand_of_room (named : file ≠ "") (room : topic = .check ∨ g.operands = []) :
    g.addOperand topic file = .ok { g with operands := g.operands ++ [file] } := by
  rw [Given.addOperand, path, if_neg named]
  show (if topic ≠ .check ∧ g.operands ≠ [] then _ else _) = _
  rw [if_neg fun full => room.elim full.1 full.2]
  rfl

/-- A command that comes first has the whole say. -/
theorem ofArguments_of_readCommand {name : String} {arguments : List String} {command : Command}
    {settings? : Option String} (plain : holdsOptions name = false)
    (read : readCommand name arguments = .ok (command, settings?)) :
    Invocation.ofArguments (name :: arguments) = .ok { settings?, command } := by
  have leading : readLeading {} none none (name :: arguments) =
      .ok ⟨{}, none, name, arguments⟩ := by
    rw [readLeading, plain]
    rfl
  rw [Invocation.ofArguments, leading]
  show (readCommand name arguments >>= _) = _
  rw [read]
  cases settings? <;> rfl

end Arguments

/-! ## Invocations -/

section Invocations

variable {path : String} {path? user? : Option String} {settings : Settings} {i : Invocation}

/-- Loading settings leaves the file system as it is. -/
private theorem gives_load? (fs : FileSystem) (path : String) :
    Gives (liftM (Settings.load? path : StateM FileSystem _)) fs (.ok (fs.loadSettings path)) fs := by
  apply gives_lift
  show ((match fs.openFile path with | .error .notFound => _ | .error _ => _ | .ok _ => _ :
    StateM FileSystem _).run fs) = _
  rw [FileSystem.loadSettings]
  split <;> rfl

/-- Settings that can be loaded are given, or the defaults if no file is there. -/
private theorem gives_loadSettings (loaded : fs.settings? (some path) = some settings) :
    Gives (loadSettings path) fs (.ok settings) fs := by
  refine (gives_load? fs path).bind ?_
  rw [FileSystem.settings?, Option.bind_some] at loaded
  cases h : fs.loadSettings path with
  | error fault => rw [h] at loaded; cases loaded
  | ok found? =>
    rw [h] at loaded
    cases found? with
    -- No file is there, which is logged.
    | none =>
      cases loaded
      exact (gives_log _ fs).bind (gives_pure _ fs)
    | some found =>
      cases loaded
      exact gives_pure _ fs

/-- Settings that cannot be loaded end the command. -/
private theorem gives_loadSettings_error (refused : fs.settings? (some path) = none) :
    ∃ failure, Gives (loadSettings path) fs (.error failure) fs := by
  rw [FileSystem.settings?, Option.bind_some] at refused
  cases h : fs.loadSettings path with
  | ok found? => rw [h] at refused; cases refused
  | error fault =>
    refine ⟨.settings fault, (gives_load? fs path).bind ?_⟩
    rw [h]
    exact gives_throw _ fs

section

variable [Uri.DomainNames]

/-- An invocation runs its command with the settings that are loaded. -/
theorem gives_runInvocation {result : Except Failure String}
    (loaded : fs.settings? (i.settings?.or user?) = some settings)
    (runs : Gives (runCommand settings i.command) fs result after) :
    Gives (runInvocation user? i) fs result after := by
  cases place : i.settings?.or user? with
  | none => rw [place] at loaded; cases loaded
  | some path =>
    rw [place] at loaded
    rw [runInvocation, place]
    exact (gives_loadSettings loaded).bind runs

/-- Without settings nothing is run. -/
theorem gives_runInvocation_error (refused : fs.settings? (i.settings?.or user?) = none) :
    ∃ failure, Gives (runInvocation user? i) fs (.error failure) fs := by
  cases place : i.settings?.or user? with
  | none =>
    rw [runInvocation, place]
    exact ⟨_, gives_throw _ fs⟩
  | some path =>
    rw [place] at refused
    obtain ⟨failure, fails⟩ := gives_loadSettings_error refused
    refine ⟨failure, ?_⟩
    rw [runInvocation, place]
    exact fails.bind_error

/-- A command that ends well gives the exit code zero, and prints its result. -/
theorem perform_of_gives {printed : String}
    (runs : Gives (runInvocation user? i) fs (.ok printed) after) :
    ∃ events, (perform user? i : StateM FileSystem Outcome).run fs =
      ({ exitCode := 0, printed, events }, after) := by
  obtain ⟨events, ran⟩ := runs []
  refine ⟨events, ?_⟩
  rw [perform, StateT.run_bind, ran]
  rfl

/-- A command that fails prints nothing, and its failure is the last event. -/
theorem perform_of_gives_error {failure : Failure}
    (fails : Gives (runInvocation user? i) fs (.error failure) after) :
    ∃ events, (perform user? i : StateM FileSystem Outcome).run fs =
      ({ exitCode := 1, events := events ++ [⟨.error, .program, failure.report⟩] }, after) := by
  obtain ⟨events, ran⟩ := fails []
  refine ⟨events, ?_⟩
  rw [perform, StateT.run_bind, ran]
  rfl

/-- Arguments that are understood are run as their invocation. -/
theorem run_of_ofArguments {arguments : List String} (h : Invocation.ofArguments arguments = .ok i) :
    (run user? arguments : StateM FileSystem Outcome) = perform user? i := by
  rw [run, h]

end

end Invocations

end Cli

end ProjectFile
