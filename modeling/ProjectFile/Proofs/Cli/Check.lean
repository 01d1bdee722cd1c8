import ProjectFile.Proofs.Cli.Commands

/-!
# What a check comes to

A check reads its files one after the other, all with one reader.  Each file is judged as if it were
the only one: what was read before it does not matter, nor does the order of the files.  A file that
cannot be read ends the check, and otherwise the files that do not pass are counted.

## Key results

- `gives_checkFiles`, `gives_checkFiles_error`: what is counted, and what ends the count
- `ofArguments_check`: any files can be checked
- `run_check`: the exit code of a check, and what it reports
-/

namespace ProjectFile

/-- Whether a file passes a check by itself: it can be read, holds a description, and has no
    problems if the check is strict. -/
def FileSystem.passesAlone [Uri.DomainNames] (fs : FileSystem) (strict : Bool) (path : String) :
    Bool :=
  match fs.readAlone? path with
  | some (problems, some _) => !strict || problems.isEmpty
  | _ => false

/-- A file passes by itself if it holds a description, without problems where these count. -/
private theorem FileSystem.passesAlone_iff [Uri.DomainNames] {fs : FileSystem} {strict : Bool}
    {path : String} :
    fs.passesAlone strict path = true ↔
      ∃ problems d, fs.readAlone? path = some (problems, some d) ∧
        (strict = true → problems = []) := by
  rw [passesAlone]
  split
  · rename_i problems d read
    simp only [read, Option.some.injEq, Prod.mk.injEq, Bool.or_eq_true, Bool.not_eq_true',
      List.isEmpty_iff]
    cases strict <;> simp
  · rename_i other
    refine ⟨fun h => (Bool.false_ne_true h).elim, ?_⟩
    rintro ⟨problems, d, read, -⟩
    exact (other problems d read).elim

namespace Cli

variable {fs : FileSystem} {files : List String} {strict : Bool}

/-! ## Counting -/

section

variable [Uri.DomainNames]

/-- A file that is read with a reader passes if it does so by itself. -/
private theorem passes_eq_passesAlone {path : String} {problems : List Problem}
    {description? : Option Description} (read : fs.readAlone? path = some (problems, description?)) :
    passes strict description? problems = fs.passesAlone strict path := by
  rw [passes, FileSystem.passesAlone, read]
  cases description? with
  | none => rfl
  | some d => cases strict <;> simp

/-- The files that do not pass by themselves are counted, whatever the reader has read before. -/
theorem gives_checkFiles (strict : Bool) (reader : Reader)
    (readable : ∀ path ∈ files, (fs.readAlone? path).isSome) :
    Gives (checkFiles strict reader files) fs
      (.ok (files.countP fun path => !fs.passesAlone strict path)) fs := by
  -- The reader is another one for each file, so the induction is for every reader.
  induction files generalizing reader with
  | nil => exact gives_pure _ fs
  | cons path rest ih =>
    obtain ⟨⟨problems, description?⟩, read⟩ :=
      Option.isSome_iff_exists.mp (readable path List.mem_cons_self)
    -- After the file its problems are all that the reader holds, so the judgement is on it alone.
    obtain ⟨reader', rfl, reads⟩ := gives_readFile reader read
    have counted := ih reader' fun p mem => readable p (List.mem_cons_of_mem _ mem)
    have logged := gives_forM_log (judgement strict path description? reader'.problems) id fs
    refine reads.bind (logged.bind (counted.bind ?_))
    rw [passes_eq_passesAlone read, List.countP_cons]
    cases fs.passesAlone strict path <;> exact gives_pure _ fs

/-- A file that cannot be read ends the count. -/
theorem gives_checkFiles_error (strict : Bool) (reader : Reader)
    (unreadable : ∃ path ∈ files, fs.readAlone? path = none) :
    ∃ failure, Gives (checkFiles strict reader files) fs (.error failure) fs := by
  induction files generalizing reader with
  | nil =>
    obtain ⟨_, mem, -⟩ := unreadable
    cases mem
  | cons path rest ih =>
    cases read : fs.readAlone? path with
    | none =>
      obtain ⟨failure, fails⟩ := gives_readFile_error reader read
      exact ⟨failure, fails.bind_error⟩
    | some readout =>
      -- This file is read and logged, so the one that cannot be read comes later.
      obtain ⟨problems, description?⟩ := readout
      obtain ⟨reader', -, reads⟩ := gives_readFile reader read
      have later : ∃ path ∈ rest, fs.readAlone? path = none := by
        obtain ⟨p, mem, unread⟩ := unreadable
        rcases List.mem_cons.mp mem with rfl | mem
        · rw [read] at unread
          cases unread
        · exact ⟨p, mem, unread⟩
      obtain ⟨failure, fails⟩ := ih reader' later
      have logged := gives_forM_log (judgement strict path description? reader'.problems) id fs
      exact ⟨failure, reads.bind (logged.bind fails.bind_error)⟩

/-! ## Checking -/

/-- A check of files that all pass ends well. -/
private theorem gives_check (pass : ∀ path ∈ files, fs.passesAlone strict path = true) :
    Gives (check files strict) fs (.ok ()) fs := by
  have readable : ∀ path ∈ files, (fs.readAlone? path).isSome := fun path mem => by
    obtain ⟨_, _, read, -⟩ := FileSystem.passesAlone_iff.mp (pass path mem)
    rw [read]
    rfl
  have none : (files.countP fun path => !fs.passesAlone strict path) = 0 :=
    List.countP_eq_zero.mpr fun path mem => by simp [pass path mem]
  refine (gives_checkFiles strict {} readable).bind ?_
  rw [none]
  exact gives_pure _ fs

/-- A check of files that are all read fails with the number of those that do not pass. -/
private theorem gives_check_failed (readable : ∀ path ∈ files, (fs.readAlone? path).isSome)
    (fail : ∃ path ∈ files, fs.passesAlone strict path = false) :
    Gives (check files strict) fs
      (.error (.failedCheck (files.countP fun path => !fs.passesAlone strict path) files.length))
      fs := by
  obtain ⟨path, mem, fails⟩ := fail
  have some : 0 < files.countP fun path => !fs.passesAlone strict path :=
    List.countP_pos_iff.mpr ⟨path, mem, by rw [fails]; rfl⟩
  refine (gives_checkFiles strict {} readable).bind ?_
  rw [if_pos some]
  exact gives_throw _ fs

end

/-! ## Arguments -/

/-- Operands of a check are taken one after the other, if none is empty. -/
private theorem foldlM_addOperand_check (g : Given) (named : ∀ file ∈ files, file ≠ "") :
    files.foldlM (fun g operand => g.addOperand .check operand) g =
      .ok { g with operands := g.operands ++ files } := by
  induction files generalizing g with
  | nil => rw [List.append_nil]; rfl
  | cons file rest ih =>
    rw [List.foldlM_cons, addOperand_of_room (named file List.mem_cons_self) (.inl rfl)]
    show rest.foldlM _ { g with operands := g.operands ++ [file] } = _
    rw [ih _ fun f mem => named f (List.mem_cons_of_mem _ mem), List.append_assoc]
    rfl

/-- After two dashes all arguments of a check are its files. -/
private theorem readArguments_check (g : Given) (named : ∀ file ∈ files, file ≠ "") :
    readArguments .check g none ("--" :: files) =
      .ok { g with operands := g.operands ++ files } := by
  rw [readArguments, if_pos rfl, foldlM_addOperand_check g named]

/-- Arguments of a check that are read give the invocation of the check. -/
private theorem ofArguments_of_readArguments_check {arguments : List String} {g : Given}
    (read : readArguments .check {} none arguments = .ok g) (some : g.operands ≠ []) :
    Invocation.ofArguments ("check" :: arguments) =
      .ok ⟨g.settings?, .check g.operands g.strict⟩ := by
  refine ofArguments_of_readCommand (by decide +kernel) ?_
  rw [readCommand, read]
  show (if g.operands = [] then _ else _) = _
  rw [if_neg some]
  rfl

/-- Any files can be checked, whatever they are called. -/
theorem ofArguments_check (some : files ≠ []) (named : ∀ file ∈ files, file ≠ "") :
    Invocation.ofArguments ("check" :: "--" :: files) = .ok { command := .check files false } ∧
      Invocation.ofArguments ("check" :: "--strict" :: "--" :: files) =
        .ok { command := .check files true } := by
  refine ⟨ofArguments_of_readArguments_check (readArguments_check {} named) some, ?_⟩
  have strictly : readArguments .check {} none ("--strict" :: "--" :: files) =
      .ok { strict := true, operands := files } := by
    rw [readArguments, if_neg (by decide), if_pos (by decide +kernel)]
    exact readArguments_check { strict := true } named
  exact ofArguments_of_readArguments_check strictly some

/-! ## The program -/

section Program

variable {user? named? : Option String} {flag : Bool} {settings : Settings}

/-- How a check ends: all files are read and pass, or are read and some do not pass, or some are not
    read. -/
private theorem perform_check [Uri.DomainNames] (files : List String) (flag : Bool)
    (loaded : fs.settings? (named?.or user?) = some settings) :
    let strict := flag || settings.strict
    ∃ outcome : Outcome,
      (perform user? ⟨named?, .check files flag⟩ : StateM FileSystem Outcome).run fs =
        (outcome, fs) ∧
      outcome.printed = "" ∧
      outcome.exitCode = (if files.all (fs.passesAlone strict) then 0 else 1) ∧
      ((∀ path ∈ files, (fs.readAlone? path).isSome) →
        (∃ path ∈ files, fs.passesAlone strict path = false) →
        let failed := files.countP fun path => !fs.passesAlone strict path
        outcome.events.getLast? =
          some ⟨.error, .program, s!"{failed} of {files.length} file(s) failed check"⟩) := by
  intro strict
  let i : Invocation := ⟨named?, .check files flag⟩
  by_cases pass : ∀ path ∈ files, fs.passesAlone strict path = true
  · -- All pass, so nothing is counted and the check ends well.
    have ends : Gives (runCommand settings i.command) fs (.ok "") fs :=
      (gives_check pass).bind (gives_pure _ fs)
    obtain ⟨events, ran⟩ := perform_of_gives (gives_runInvocation (i := i) loaded ends)
    refine ⟨_, ran, rfl, (if_pos (List.all_eq_true.mpr pass)).symm, ?_⟩
    rintro - ⟨path, mem, fails⟩
    rw [pass path mem] at fails
    cases fails
  · have failing : ¬ files.all (fs.passesAlone strict) = true := fun all =>
      pass (List.all_eq_true.mp all)
    by_cases readable : ∀ path ∈ files, (fs.readAlone? path).isSome
    · -- The loop goes through, and the check fails with its count.
      have some : ∃ path ∈ files, fs.passesAlone strict path = false := by
        simpa using pass
      let failure := Failure.failedCheck (files.countP fun p => !fs.passesAlone strict p) files.length
      have ends : Gives (runCommand settings i.command) fs (.error failure) fs :=
        (gives_check_failed readable some).bind_error
      obtain ⟨events, ran⟩ := perform_of_gives_error (gives_runInvocation (i := i) loaded ends)
      refine ⟨_, ran, rfl, (if_neg failing).symm, fun _ _ => ?_⟩
      rw [List.getLast?_concat]
      rfl
    · -- The loop stops at a file that cannot be read, and nothing is counted.
      have some : ∃ path ∈ files, fs.readAlone? path = none := by
        simpa using readable
      obtain ⟨failure, fails⟩ := gives_checkFiles_error strict {} some
      have ends : Gives (runCommand settings i.command) fs (.error failure) fs :=
        fails.bind_error.bind_error
      obtain ⟨events, ran⟩ := perform_of_gives_error (gives_runInvocation (i := i) loaded ends)
      exact ⟨_, ran, rfl, (if_neg failing).symm, fun all => absurd all readable⟩

/-- What the program comes to when it checks files with settings that can be loaded.  No file is
    changed.  The exit code is zero exactly if each file can be read, holds a description, and has
    no problems where these count.  If all files can be read, the error that is reported last tells
    how many of them do not pass by themselves.  The order of the files does not matter. -/
theorem run_check [Uri.DomainNames] {arguments : List String}
    (given : Invocation.ofArguments arguments = .ok ⟨named?, .check files flag⟩)
    (loaded : fs.settings? (named?.or user?) = some settings) :
    let strict := flag || settings.strict
    ∃ outcome : Outcome,
      (run user? arguments : StateM FileSystem Outcome).run fs = (outcome, fs) ∧
      outcome.printed = "" ∧
      (outcome.exitCode = 0 ↔ ∀ path ∈ files, ∃ problems d,
        fs.readAlone? path = some (problems, some d) ∧ (strict = true → problems = [])) ∧
      (outcome.exitCode = 0 ∨ outcome.exitCode = 1) ∧
      ((∀ path ∈ files, (fs.readAlone? path).isSome) →
        (∃ path ∈ files, fs.passesAlone strict path = false) →
        let failed := files.countP fun path => !fs.passesAlone strict path
        outcome.exitCode = 1 ∧ outcome.events.getLast? =
          some ⟨.error, .program, s!"{failed} of {files.length} file(s) failed check"⟩) ∧
      ∀ arguments' files', Invocation.ofArguments arguments' = .ok ⟨named?, .check files' flag⟩ →
        files'.Perm files →
        ∃ outcome' : Outcome,
          (run user? arguments' : StateM FileSystem Outcome).run fs = (outcome', fs) ∧
          outcome'.exitCode = outcome.exitCode := by
  intro strict
  obtain ⟨outcome, ran, printed, code, reported⟩ := perform_check files flag loaded
  have passes : files.all (fs.passesAlone strict) = true ↔ ∀ path ∈ files, ∃ problems d,
      fs.readAlone? path = some (problems, some d) ∧ (strict = true → problems = []) := by
    simp only [List.all_eq_true, FileSystem.passesAlone_iff]
  refine ⟨outcome, ?_, printed, ?_, ?_, ?_, ?_⟩
  · rw [run_of_ofArguments given, ran]
  · rw [← passes, code]
    split
    · exact iff_of_true rfl ‹_›
    · exact iff_of_false Nat.one_ne_zero ‹_›
  · rw [code]
    split
    · exact .inl rfl
    · exact .inr rfl
  · intro readable fails
    refine ⟨?_, reported readable fails⟩
    obtain ⟨path, mem, fails⟩ := fails
    rw [code, if_neg]
    intro all
    rw [List.all_eq_true.mp all path mem] at fails
    cases fails
  · -- Whether all files pass does not depend on their order.
    intro arguments' files' given' perm
    obtain ⟨outcome', ran', -, code', -⟩ := perform_check files' flag loaded
    refine ⟨outcome', ?_, ?_⟩
    · rw [run_of_ofArguments given', ran']
    · rw [code', code, perm.all_eq]

/-- Two files, one of them with a problem and checked twice.  No file holds settings. -/
theorem run_check_repeated :
    let fs := (({} : FileSystem).withFile ["good"] "<projectDescription/>".toUTF8).withFile ["odd"]
      "<projectDescription><buildSpec><a/></buildSpec></projectDescription>".toUTF8
    let files := ["odd", "good", "odd"]
    ∃ lenient strict : Outcome,
      (run (some "settings") ("check" :: "--" :: files) : StateM FileSystem Outcome).run fs =
        (lenient, fs) ∧
      (run (some "settings") ("check" :: "--strict" :: "--" :: files) :
        StateM FileSystem Outcome).run fs = (strict, fs) ∧
      lenient.exitCode = 0 ∧ strict.exitCode = 1 ∧
      strict.events.getLast? = some ⟨.error, .program, "2 of 3 file(s) failed check"⟩ := by
  intro fs files
  -- The same files pass or not by what the flag says.
  obtain ⟨leniently, strictly⟩ :=
    @ofArguments_check files (List.cons_ne_nil _ _) (by decide)
  -- No file is at the path of the settings, so they are the defaults.
  have loaded : fs.settings? (some "settings") = some {} := by decide +kernel
  have passes : ∀ path ∈ files, fs.passesAlone false path = true := by decide +kernel
  have readable : ∀ path ∈ files, (fs.readAlone? path).isSome := by decide +kernel
  have fails : fs.passesAlone true "odd" = false := by decide +kernel
  have failed : (files.countP fun path => !fs.passesAlone true path) = 2 := by decide +kernel
  obtain ⟨lenient, ran₁, -, passed, -⟩ := run_check leniently loaded
  obtain ⟨strict, ran₂, -, -, -, counted, -⟩ := run_check strictly loaded
  obtain ⟨code, reported⟩ := counted readable ⟨"odd", List.mem_cons_self, fails⟩
  refine ⟨lenient, strict, ran₁, ran₂,
    passed.mpr fun path mem => FileSystem.passesAlone_iff.mp (passes path mem), code, ?_⟩
  rw [reported, Bool.true_or, failed]
  decide +kernel

end Program

end Cli

end ProjectFile
