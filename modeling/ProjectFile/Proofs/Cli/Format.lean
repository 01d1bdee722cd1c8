import ProjectFile.Proofs.Cli.Commands
import ProjectFile.Proofs.Document.Idempotent

/-!
# Formatting a file

A file is formatted by reading the description in it and writing that anew.  The document is made
from what is there before anything is written, and it is written only once nothing can fail any
more; so a formatting that fails changes nothing, and one that does not changes its output only.

A file that is formatted into itself then holds a document, which is formatted into itself again.
If it is the settings file as well, it holds no settings any more, and nothing is written.

## Key results

- `settings_ofText_document`: a document holds no settings
- `perform_format`: how a formatting ends, and what it leaves
- `perform_format_again`: the same formatting once more
- `run_format`: all that a formatting does
-/

namespace ProjectFile

/-! ## Documents and settings -/

namespace Toml

/-- No line of a settings file starts with the bracket of a tag. -/
private theorem lines?_of_tag (fuel : Nat) (d : Draft) (rest : List Char) :
    lines? fuel d ('<' :: rest) = none := by
  cases fuel with
  | zero => rfl
  | succ fuel =>
    have front : skipSpace ('<' :: rest) = '<' :: rest := rfl
    have key : key? ('<' :: rest) = none := rfl
    have pair : pair? (some ∘ skipSpace) value? d.part ('<' :: rest) = none := by
      rw [pair?, key]
      rfl
    simp [lines?, front, pair]

end Toml

/-- A document is no settings file. -/
theorem settings_ofText_document (d : Description) (separator : String) :
    Settings.ofText (d.document separator) = .error .unreadable := by
  obtain ⟨rest, starts⟩ : ∃ rest, (d.document separator).toList = '<' :: rest :=
    ⟨_, toList_document d separator⟩
  have unread : Toml.parse (d.document separator) = none := by
    rw [Toml.parse, starts]
    exact Toml.lines?_of_tag _ _ rest
  rw [Settings.ofText, unread]

/-! ## What a file is formatted to -/

namespace FileSystem

variable {fs : FileSystem} {settingsPath? : Option String} {file : String}
  {separator? : Option LineSeparator} {document : String} {target : List String}

section

variable [Uri.DomainNames]

/-- The document to which a file is formatted, if the settings can be loaded and the file holds a
    description. -/
def formatted? (fs : FileSystem) (settingsPath? : Option String) (file : String)
    (separator? : Option LineSeparator) : Option String := do
  let settings ← fs.settings? settingsPath?
  let d ← fs.description? file
  some (d.document (separator?.getD settings.lineSeparator).text)

/-- There is a document exactly if the settings are loaded and the file holds a description. -/
private theorem formatted?_eq_some :
    fs.formatted? settingsPath? file separator? = some document ↔
      ∃ settings d, fs.settings? settingsPath? = some settings ∧ fs.description? file = some d ∧
        document = d.document (separator?.getD settings.lineSeparator).text := by
  simp only [formatted?, Option.bind_eq_bind, Option.bind_eq_some_iff, Option.some.injEq,
    eq_comm (a := document)]
  constructor
  · rintro ⟨settings, loaded, d, holds, written⟩
    exact ⟨settings, d, loaded, holds, written⟩
  · rintro ⟨settings, d, loaded, holds, written⟩
    exact ⟨settings, loaded, d, holds, written⟩

/-- The file in which a description is found. -/
private theorem exists_file_of_description? {d : Description}
    (holds : fs.description? file = some d) :
    ∃ target bytes, fs.resolve file = .ok target ∧ fs.get? target = some (.file bytes) ∧
      fs.faults.opening target = none ∧ fs.faults.reading target = none := by
  obtain ⟨⟨problems, _⟩, read, rfl⟩ := Option.bind_eq_some_iff.mp holds
  obtain ⟨source, text, opened, h, -, -⟩ := Cli.exists_text_of_readAlone? read
  exact exists_file_of_text opened h

end

/-! ## Formatting in place -/

section InPlace

variable {d : Description} {bytes : ByteArray} {separator : String}

/-- A file that gets a document as its content holds the description that was written, if that was
    read from the file before. -/
private theorem description?_put [Uri.DomainNames] (holds : fs.description? file = some d)
    (leads : fs.resolve file = .ok target) (plain : ∀ c ∈ separator.toList, c ≠ '<')
    (stable : ∀ l ∈ d.links.toList, l.location.writtenPath? = none →
      Uri.parse l.location.render = .ok l.location) :
    (fs.put target (.file (d.document separator).toUTF8)).description? file = some d := by
  obtain ⟨target', old, leads', there, opens, reads⟩ := exists_file_of_description? holds
  obtain rfl : target = target' := Except.ok.inj (leads.symm.trans leads')
  obtain ⟨⟨_, _⟩, read, rfl⟩ := Option.bind_eq_some_iff.mp holds
  obtain ⟨source, text, -, -, -, described⟩ := Cli.exists_text_of_readAlone? read
  have opened := openFile_put leads there opens reads (d.document separator).toUTF8
  have again : (Reading.ofText (d.document separator)).description? = some d :=
    Reading.description?_document_of_read described.symm plain stable
  rw [description?, Cli.readAlone?_of_text opened (Source.text_of_bytes rfl rfl), Option.bind_some,
    again]

/-- Settings stay what they are if another file gets a new content. -/
private theorem settings?_put (there : fs.get? target = some (.file bytes)) (content : ByteArray)
    (other : ∀ path, settingsPath? = some path → fs.resolve path ≠ .ok target) :
    (fs.put target (.file content)).settings? settingsPath? = fs.settings? settingsPath? := by
  cases settingsPath? with
  | none => rfl
  | some path =>
    have opened := openFile_put_of_ne there content (other path rfl)
    rw [settings?, settings?, Option.bind_some, Option.bind_some, loadSettings, loadSettings, opened]

/-- Where a document has taken the place of the settings, none can be loaded. -/
private theorem settings?_put_document {path : String} (leads : fs.resolve path = .ok target)
    (there : fs.get? target = some (.file bytes)) (opens : fs.faults.opening target = none)
    (reads : fs.faults.reading target = none) (d : Description) (separator : String) :
    (fs.put target (.file (d.document separator).toUTF8)).settings? (some path) = none := by
  have opened := openFile_put leads there opens reads (d.document separator).toUTF8
  have refused : Settings.ofSource path { bytes := (d.document separator).toUTF8 } =
      .error (.settings .unreadable) := by
    rw [Settings.ofSource, show Source.text { bytes := (d.document separator).toUTF8 } =
      .ok (d.document separator) from Source.text_of_bytes rfl rfl]
    simp only [settings_ofText_document]
    rfl
  rw [settings?, Option.bind_some, loadSettings, opened]
  simp only [refused]
  rfl

end InPlace

end FileSystem

namespace Cli

variable {fs : FileSystem} {user? named? : Option String} {file output : String}
  {output? : Option String} {separator : LineSeparator} {separator? : Option LineSeparator}
  {document : String} {target : List String}

/-- A file that can be created gets its content. -/
private theorem gives_createFile (creates : fs.Creates output target) (bytes : ByteArray) :
    Gives (liftM (FileAccess.createFile output bytes : StateM FileSystem _)) fs (.ok (.ok ()))
      (fs.put target (.file bytes)) := by
  apply gives_lift
  simp only [FileAccess.createFile, StateT.run_bind, StateT.run_get, pure_bind,
    FileSystem.createFile_of_creates creates]
  rfl

/-- A file that cannot be created changes nothing. -/
private theorem gives_createFile_error (refused : ∀ target, ¬ fs.Creates output target)
    (bytes : ByteArray) :
    ∃ fault, Gives (liftM (FileAccess.createFile output bytes : StateM FileSystem _)) fs
      (.ok (.error fault)) fs := by
  obtain ⟨fault, h⟩ := FileSystem.createFile_of_not_creates refused bytes
  refine ⟨fault, gives_lift ?_⟩
  simp only [FileAccess.createFile, StateT.run_bind, StateT.run_get, pure_bind, h]
  rfl

section

variable [Uri.DomainNames]

/-- Without an output the document is the result. -/
private theorem gives_format_printed {d : Description} (holds : fs.description? file = some d) :
    Gives (format file none separator) fs (.ok (d.document separator.text)) fs :=
  (gives_readDescription holds).bind ((gives_log _ fs).bind (gives_pure _ fs))

/-- With an output the document is its content. -/
private theorem gives_format_created {d : Description} (holds : fs.description? file = some d)
    (creates : fs.Creates output target) :
    Gives (format file (some output) separator) fs (.ok "")
      (fs.put target (.file (d.document separator.text).toUTF8)) :=
  (gives_readDescription holds).bind ((gives_createFile creates _).bind
    ((gives_log _ _).bind ((gives_log _ _).bind (gives_pure _ _))))

/-- If the output cannot be created, the command fails and nothing is changed. -/
private theorem gives_format_not_created {d : Description} (holds : fs.description? file = some d)
    (refused : ∀ target, ¬ fs.Creates output target) :
    ∃ failure, Gives (format file (some output) separator) fs (.error failure) fs := by
  obtain ⟨fault, fails⟩ := gives_createFile_error refused (d.document separator.text).toUTF8
  exact ⟨.cannotCreate output fault,
    (gives_readDescription holds).bind (fails.bind (gives_throw _ fs))⟩

end

/-! ## Arguments -/

/-- After two dashes the one argument of a formatting is its file. -/
private theorem readArguments_format (g : Given) (none : g.operands = []) (named : file ≠ "") :
    readArguments .format g .none ["--", file] = .ok { g with operands := [file] } := by
  rw [readArguments, if_pos rfl, List.foldlM_cons, addOperand_of_room named (.inr none), none]
  rfl

/-- Arguments of a formatting that are read give the invocation of the formatting. -/
private theorem ofArguments_of_readArguments_format {arguments : List String} {g : Given}
    (read : readArguments .format {} none arguments = .ok g) (one : g.operands = [file]) :
    Invocation.ofArguments ("format" :: arguments) =
      .ok ⟨g.settings?, .format file g.output? g.separator?⟩ := by
  refine ofArguments_of_readCommand (by decide +kernel) ?_
  rw [readCommand, read]
  show (singleOperand g.operands >>= _) = _
  rw [one]
  rfl

/-- Any file can be formatted, and into any other whose path cannot be taken for an option. -/
private theorem ofArguments_format (named : file ≠ "") :
    Invocation.ofArguments ["format", "--", file] = .ok { command := .format file none none } ∧
      ∀ output, output ≠ "" → holdsOptions output = false →
        Invocation.ofArguments ["format", "--output", output, "--", file] =
          .ok { command := .format file (some output) none } := by
  refine ⟨ofArguments_of_readArguments_format (readArguments_format {} rfl named) rfl, ?_⟩
  intro output given plain
  -- The value of the option is taken whatever it is, as long as it does not look like options.
  have read : readArguments .format {} none ["--output", output, "--", file] =
      .ok { output? := some output, operands := [file] } := by
    have value : ({} : Given).addOption .format .output output = .ok { output? := some output } := by
      rw [Given.addOption, path, if_neg given]
      rfl
    rw [readArguments, if_neg (by decide), if_pos (by decide +kernel)]
    show readArguments .format {} (some .output) [output, "--", file] = _
    rw [readArguments, plain, value]
    exact readArguments_format { output? := some output } rfl named
  exact ofArguments_of_readArguments_format read rfl

/-! ## How a formatting ends -/

section

variable [Uri.DomainNames]

/-- Without a document the program fails and changes nothing. -/
private theorem perform_format_of_none
    (nothing : fs.formatted? (named?.or user?) file separator? = none) (output? : Option String) :
    ∃ events, (perform user? ⟨named?, .format file output? separator?⟩ :
      StateM FileSystem Outcome).run fs = ({ exitCode := 1, events }, fs) := by
  let i : Invocation := ⟨named?, .format file output? separator?⟩
  have fails : ∃ failure, Gives (runInvocation user? i) fs (.error failure) fs := by
    -- The settings are loaded first, so it is they that fail, or the file.
    cases loaded : fs.settings? (named?.or user?) with
    | none => exact gives_runInvocation_error (i := i) loaded
    | some settings =>
      have holds : fs.description? file = none := by
        rw [FileSystem.formatted?, loaded] at nothing
        cases holds : fs.description? file with
        | none => rfl
        | some d => rw [holds] at nothing; cases nothing
      obtain ⟨failure, fails⟩ := gives_readDescription_error holds
      exact ⟨failure, gives_runInvocation (i := i) loaded fails.bind_error⟩
  obtain ⟨failure, fails⟩ := fails
  obtain ⟨events, ran⟩ := perform_of_gives_error fails
  exact ⟨_, ran⟩

/-- Without an output the program prints the document. -/
private theorem perform_format_printed (user? : Option String)
    (formatted : fs.formatted? (named?.or user?) file separator? = some document) :
    ∃ events, (perform user? ⟨named?, .format file none separator?⟩ :
      StateM FileSystem Outcome).run fs = ({ exitCode := 0, printed := document, events }, fs) := by
  let i : Invocation := ⟨named?, .format file none separator?⟩
  obtain ⟨settings, d, loaded, holds, rfl⟩ := FileSystem.formatted?_eq_some.mp formatted
  exact perform_of_gives (gives_runInvocation (i := i) loaded (gives_format_printed holds))

/-- With an output that can be created the program prints nothing and writes the document. -/
private theorem perform_format_created
    (formatted : fs.formatted? (named?.or user?) file separator? = some document)
    (creates : fs.Creates output target) :
    ∃ events, (perform user? ⟨named?, .format file (some output) separator?⟩ :
      StateM FileSystem Outcome).run fs =
        ({ exitCode := 0, events }, fs.put target (.file document.toUTF8)) := by
  let i : Invocation := ⟨named?, .format file (some output) separator?⟩
  obtain ⟨settings, d, loaded, holds, rfl⟩ := FileSystem.formatted?_eq_some.mp formatted
  exact perform_of_gives (gives_runInvocation (i := i) loaded (gives_format_created holds creates))

/-- With an output that cannot be created the program fails and changes nothing. -/
private theorem perform_format_not_created (user? : Option String)
    (formatted : fs.formatted? (named?.or user?) file separator? = some document)
    (refused : ∀ target, ¬ fs.Creates output target) :
    ∃ events, (perform user? ⟨named?, .format file (some output) separator?⟩ :
      StateM FileSystem Outcome).run fs = ({ exitCode := 1, events }, fs) := by
  let i : Invocation := ⟨named?, .format file (some output) separator?⟩
  obtain ⟨settings, d, loaded, holds, -⟩ := FileSystem.formatted?_eq_some.mp formatted
  obtain ⟨failure, fails⟩ := gives_format_not_created holds refused
  obtain ⟨events, ran⟩ := perform_of_gives_error (gives_runInvocation (i := i) loaded fails)
  exact ⟨_, ran⟩

/-- What a formatting leaves: nothing but its output. -/
theorem perform_format (user? named? : Option String) (file : String) (output? : Option String)
    (separator? : Option LineSeparator) (fs : FileSystem) :
    let formatted? := fs.formatted? (named?.or user?) file separator?
    ∃ (outcome : Outcome) (after : FileSystem),
      (perform user? ⟨named?, .format file output? separator?⟩ :
        StateM FileSystem Outcome).run fs = (outcome, after) ∧
      (formatted? = none ∨
          (∃ output, output? = some output ∧ ∀ target, ¬ fs.Creates output target) →
        outcome.exitCode = 1 ∧ outcome.printed = "" ∧ after = fs) ∧
      (∀ document, formatted? = some document → output? = none →
        outcome.exitCode = 0 ∧ outcome.printed = document ∧ after = fs) ∧
      (∀ document output target, formatted? = some document → output? = some output →
        fs.Creates output target →
        outcome.exitCode = 0 ∧ outcome.printed = "" ∧
          after = fs.put target (.file document.toUTF8)) := by
  intro formatted?
  cases formatted : formatted? with
  | none =>
    obtain ⟨events, ran⟩ := perform_format_of_none formatted output?
    exact ⟨_, fs, ran, fun _ => ⟨rfl, rfl, rfl⟩, nofun, nofun⟩
  | some document =>
    cases output? with
    | none =>
      obtain ⟨events, ran⟩ := perform_format_printed user? formatted
      refine ⟨_, fs, ran, ?_, ?_, nofun⟩
      · rintro (nothing | ⟨_, given, -⟩)
        · cases nothing
        · cases given
      · rintro _ ⟨⟩ -
        exact ⟨rfl, rfl, rfl⟩
    | some output =>
      by_cases creates : ∃ target, fs.Creates output target
      · obtain ⟨target, creates⟩ := creates
        obtain ⟨events, ran⟩ := perform_format_created formatted creates
        -- The path leads to one place only, so what is put there is all that can be asked about.
        refine ⟨_, _, ran, ?_, nofun, ?_⟩
        · rintro (nothing | ⟨_, ⟨⟩, refused⟩)
          · cases nothing
          · exact absurd creates (refused target)
        · rintro _ _ target' ⟨⟩ ⟨⟩ creates'
          obtain rfl : target = target' := Except.ok.inj (creates.leads.symm.trans creates'.leads)
          exact ⟨rfl, rfl, rfl⟩
      · have refused : ∀ target, ¬ fs.Creates output target := not_exists.mp creates
        obtain ⟨events, ran⟩ := perform_format_not_created user? formatted refused
        refine ⟨_, fs, ran, fun _ => ⟨rfl, rfl, rfl⟩, nofun, ?_⟩
        rintro _ _ target - ⟨⟩ creates
        exact absurd creates (refused target)

end

/-! ## Formatting once more -/

/-- No separator has the bracket of a tag. -/
private theorem ne_open_of_mem_separator (l : LineSeparator) : ∀ c ∈ l.text.toList, c ≠ '<' := by
  cases l <;> simp [LineSeparator.text]

section

variable [Uri.DomainNames]

/-- A file that was formatted into itself is formatted to the same document, unless that took the
    place of the settings.  Either way nothing is changed any more. -/
private theorem perform_format_itself
    (formatted : fs.formatted? (named?.or user?) file separator? = some document)
    (creates : fs.Creates output target) (leads : fs.resolve file = .ok target)
    (stable : ∀ d, fs.description? file = some d → ∀ l ∈ d.links.toList,
      l.location.writtenPath? = none → Uri.parse l.location.render = .ok l.location) :
    let after := fs.put target (.file document.toUTF8)
    ∃ again : Outcome,
      (perform user? ⟨named?, .format file (some output) separator?⟩ :
        StateM FileSystem Outcome).run after = (again, after) ∧
      ((∀ path, named?.or user? = some path → fs.resolve path ≠ .ok target) →
        again.exitCode = 0) := by
  intro after
  obtain ⟨settings, d, loaded, holds, rfl⟩ := FileSystem.formatted?_eq_some.mp formatted
  obtain ⟨target', old, leads', there, opens, reads⟩ :=
    FileSystem.exists_file_of_description? holds
  obtain rfl : target = target' := Except.ok.inj (leads.symm.trans leads')
  by_cases apart : ∀ path, named?.or user? = some path → fs.resolve path ≠ .ok target
  · -- The same settings are loaded, and the document is read as what it was written from.
    have holds' : after.description? file = some d :=
      FileSystem.description?_put holds leads (ne_open_of_mem_separator _) (stable d holds)
    have loaded' : after.settings? (named?.or user?) = some settings :=
      (FileSystem.settings?_put there _ apart).trans loaded
    have formatted' : after.formatted? (named?.or user?) file separator? = some _ :=
      FileSystem.formatted?_eq_some.mpr ⟨settings, d, loaded', holds', rfl⟩
    obtain ⟨events, ran⟩ := perform_format_created formatted' (creates.put there _)
    rw [FileSystem.put_put] at ran
    exact ⟨_, ran, fun _ => rfl⟩
  · -- The settings are gone, so the second run fails before it reads the file.
    push Not at apart
    obtain ⟨path, place, same⟩ := apart
    have refused : after.settings? (named?.or user?) = none := by
      rw [place]
      exact FileSystem.settings?_put_document same there opens reads d _
    have nothing : after.formatted? (named?.or user?) file separator? = none := by
      rw [FileSystem.formatted?, refused]
      rfl
    obtain ⟨events, ran⟩ := perform_format_of_none nothing (some output)
    exact ⟨_, ran, fun apart => absurd same (apart path place)⟩

/-- After a formatting in place, which may have failed, the same formatting changes nothing. -/
theorem perform_format_again {outcome : Outcome} {after : FileSystem}
    (ran : (perform user? ⟨named?, .format file (some output) separator?⟩ :
      StateM FileSystem Outcome).run fs = (outcome, after))
    (leads : fs.resolve file = .ok target) (new : fs.resolveNew output = .ok target)
    (stable : ∀ d, fs.description? file = some d → ∀ l ∈ d.links.toList,
      l.location.writtenPath? = none → Uri.parse l.location.render = .ok l.location) :
    ∃ again : Outcome,
      (perform user? ⟨named?, .format file (some output) separator?⟩ :
        StateM FileSystem Outcome).run after = (again, after) ∧
      ((∀ path, named?.or user? = some path → fs.resolve path ≠ .ok target) →
        again.exitCode = outcome.exitCode) := by
  obtain ⟨outcome', after', ran', fails, -, creates⟩ :=
    perform_format user? named? file (some output) separator? fs
  obtain ⟨rfl, rfl⟩ : outcome = outcome' ∧ after = after' := Prod.mk.inj (ran.symm.trans ran')
  by_cases failing : fs.formatted? (named?.or user?) file separator? = none ∨
      ∃ output', some output = some output' ∧ ∀ target, ¬ fs.Creates output' target
  · -- Nothing was changed, so the second run is the first once more.
    obtain ⟨-, -, rfl⟩ := fails failing
    exact ⟨outcome, ran, fun _ => rfl⟩
  · rw [not_or] at failing
    obtain ⟨document, formatted⟩ := Option.ne_none_iff_exists'.mp failing.1
    obtain ⟨target', created⟩ : ∃ target, fs.Creates output target := by
      by_contra refused
      exact failing.2 ⟨output, rfl, not_exists.mp refused⟩
    obtain rfl : target = target' := Except.ok.inj (new.symm.trans created.leads)
    obtain ⟨code, -, rfl⟩ := creates document output target formatted rfl created
    rw [code]
    exact perform_format_itself formatted created leads stable

/-! ## The program -/

/-- What the program does when it formats a file.  Without settings, without a description, or if
    the output cannot be created, it fails, prints nothing, and changes no file.  Otherwise the
    document is printed, or is the content of the output, and no other file is changed.  Where the
    output is the file itself, doing the same once more changes nothing, and ends as before unless
    the document took the place of the settings; here locations are taken to be parsed as what they
    were rendered from. -/
theorem run_format (user? : Option String) {arguments : List String}
    (given : Invocation.ofArguments arguments = .ok ⟨named?, .format file output? separator?⟩)
    (fs : FileSystem) :
    let formatted? := fs.formatted? (named?.or user?) file separator?
    ∃ (outcome : Outcome) (after : FileSystem),
      (run user? arguments : StateM FileSystem Outcome).run fs = (outcome, after) ∧
      (formatted? = none ∨
          (∃ output, output? = some output ∧ ∀ target, ¬ fs.Creates output target) →
        outcome.exitCode = 1 ∧ outcome.printed = "" ∧ after = fs) ∧
      (∀ document, formatted? = some document → output? = none →
        outcome.exitCode = 0 ∧ outcome.printed = document ∧ after = fs) ∧
      (∀ document output target, formatted? = some document → output? = some output →
        fs.Creates output target →
        outcome.exitCode = 0 ∧ outcome.printed = "" ∧
          after.get? target = some (.file document.toUTF8) ∧
          ∀ p, p ≠ target → after.get? p = fs.get? p) ∧
      ∀ output target, output? = some output → fs.resolve file = .ok target →
        fs.resolveNew output = .ok target →
        (∀ d, fs.description? file = some d → ∀ l ∈ d.links.toList,
          l.location.writtenPath? = none → Uri.parse l.location.render = .ok l.location) →
        ∃ again : Outcome,
          (run user? arguments : StateM FileSystem Outcome).run after = (again, after) ∧
          ((∀ path, named?.or user? = some path → fs.resolve path ≠ .ok target) →
            again.exitCode = outcome.exitCode) := by
  intro formatted?
  rw [run_of_ofArguments given]
  obtain ⟨outcome, after, ran, fails, prints, creates⟩ :=
    perform_format user? named? file output? separator? fs
  refine ⟨outcome, after, ran, fails, prints, ?_, ?_⟩
  · intro document output target formatted into created
    obtain ⟨code, printed, rfl⟩ := creates document output target formatted into created
    have below := FileSystem.ne_nil_of_not_directory created.file
    exact ⟨code, printed, FileSystem.get?_put_self below _,
      fun p other => FileSystem.get?_put_of_ne below _ other⟩
  · -- What is run again starts where the first run ended, whichever way that was.
    rintro output target rfl leads new stable
    exact perform_format_again ran leads new stable

end

/-- A file with a link is formatted into itself, by another path.  No file holds settings. -/
theorem run_format_itself :
    let fs := ({} : FileSystem).withFile ["a"] ("<projectDescription><linkedResources><link>" ++
      "<name>n</name><locationURI>x:y</locationURI></link></linkedResources>").toUTF8
    let arguments := ["format", "--output", "./a", "--", "a"]
    ∃ (document : String) (first again : Outcome) (after : FileSystem),
      fs.formatted? (some "settings") "a" none = some document ∧
      (run (some "settings") arguments : StateM FileSystem Outcome).run fs = (first, after) ∧
      first.exitCode = 0 ∧ after.get? ["a"] = some (.file document.toUTF8) ∧
      (run (some "settings") arguments : StateM FileSystem Outcome).run after = (again, after) ∧
      again.exitCode = 0 := by
  intro fs arguments
  have named : "a" ≠ "" := by decide
  have given := (ofArguments_format named).2 "./a" (by decide) (by decide +kernel)
  obtain ⟨document, formatted⟩ :
      ∃ document, fs.formatted? (some "settings") "a" none = some document :=
    Option.isSome_iff_exists.mp (by decide +kernel)
  -- Both paths lead to the file, and the settings are not there.
  have leads : fs.resolve "a" = .ok ["a"] := by decide +kernel
  have new : fs.resolveNew "./a" = .ok ["a"] := by decide +kernel
  have elsewhere : fs.resolve "settings" ≠ .ok ["a"] := by decide +kernel
  have file : fs.get? ["a"] ≠ some .directory := by
    intro directory
    have : (fs.get? ["a"]).map FileEntry.isDirectory = some false := by decide +kernel
    rw [directory] at this
    cases this
  have creates : fs.Creates "./a" ["a"] := ⟨new, file, rfl⟩
  have stable : (fs.description? "a").all fun d => d.links.toList.all fun l =>
      Uri.parse l.location.render = .ok l.location := by decide +kernel
  obtain ⟨first, after, ran, -, -, created, inPlace⟩ := run_format (some "settings") given fs
  obtain ⟨code, -, holds, -⟩ := created document _ _ formatted rfl creates
  -- The assumption on locations is checked for all links of the file.
  obtain ⟨again, ran', same⟩ := inPlace _ _ rfl leads new (by
    intro d h l mem _
    rw [h] at stable
    simpa using List.all_eq_true.mp stable l mem)
  refine ⟨document, first, again, after, formatted, ran, code, holds, ran', ?_⟩
  exact (same fun path h => by cases h; exact elsewhere).trans code

end Cli

end ProjectFile
