import Mathlib.Data.List.Basic
import Mathlib.Data.List.Forall2
import ProjectFile.Proofs.Description.Entries
import ProjectFile.Proofs.Reading.Last
import ProjectFile.Proofs.Reading.Subjects

/-!
# What is read from a build specification

The last build specification below the root is read.  Each child of it that is a build command and
has a name gives a command, however blank the name is, and the commands stay in order.

The arguments of a command may stand in several elements.  Their entries are taken together, one
after the other: a key has its place from the first entry with it, and its value from the last
one.

Problems are recorded for all build specifications.  A child that gives no command has one, and
what is in it is not looked at.  Inside one that gives a command, each entry of the arguments that
has no key has one.

## Key results

- `Element.keys_arguments`, `Element.get?_arguments`: the keys of a command and their values
- `Element.forall₂_givesCommand`: the commands that a build specification gives
- `Reading.buildSpec_ofText`: the commands of a description, and the problems of commands
-/

namespace ProjectFile

open ProjectFile.Markup

namespace Element

variable {e spec : Element} {c : BuildCommand}

/-! ## Arguments -/

/-- The key of an entry of the arguments, if the entry is a dictionary and has one. -/
def key? (e : Element) : Option String :=
  if e.name = "dictionary" then e.lastValue? "key" else none

/-- An entry of the arguments that has a key gives the key with the last value in it. -/
private theorem setting?_eq_map_key? (e : Element) :
    e.setting? = e.key?.map fun key => (key, some (e.lastValue "value")) := by
  unfold setting? key?
  split
  · rfl
  · rfl

/-- The keys of arguments are those of their entries. -/
private theorem map_fst_filterMap_setting? (entries : List Element) :
    (entries.filterMap setting?).map Prod.fst = entries.filterMap key? := by
  rw [List.map_filterMap]
  congr 1
  funext s
  rw [setting?_eq_map_key?, Option.map_map, Function.comp_def, Option.map_id']

/-- What is set under a key comes from the entries with it. -/
private theorem filter_filterMap_setting? (entries : List Element) (key : String) :
    (entries.filterMap setting?).filter (·.1 == key) =
      (entries.filter (·.key? = some key)).map fun s => (key, some (s.lastValue "value")) := by
  induction entries with
  | nil => rfl
  | cons s rest ih =>
    rw [List.filterMap_cons, setting?_eq_map_key?]
    cases found : s.key? with
    | none => simp [found, ih]
    | some k =>
      -- An entry with another key is left out on both sides.
      by_cases same : k = key
      · simp [found, ih, same]
      · simp [found, ih, same]

/-- The keys of the arguments that some entries set stand in the order in which they are found
    first. -/
theorem keys_arguments (entries : List Element) :
    (Arguments.ofList (entries.filterMap setting?)).keys =
      (entries.filterMap key?).eraseDups := by
  rw [Arguments.keys_ofList, map_fst_filterMap_setting?]

/-- The value under a key is that of the last entry with the key. -/
theorem get?_arguments (entries : List Element) (key : String) (value? : Option String) :
    (Arguments.ofList (entries.filterMap setting?)).get? key = some value? ↔
      ∃ s, IsLast (·.key? = some key) entries s ∧ value? = some (s.lastValue "value") := by
  rw [Arguments.get?_ofList, filter_filterMap_setting?, List.getLast?_map, Option.map_map,
    Option.map_eq_some_iff]
  simp only [getLast?_filter_eq_some_iff, Function.comp_apply]
  constructor
  · rintro ⟨s, last, value⟩
    exact ⟨s, last, value.symm⟩
  · rintro ⟨s, last, value⟩
    exact ⟨s, last, value.symm⟩

/-! ## Commands -/

/-- An entry of a build specification that gives a command: a build command with a name. -/
def IsNamedCommand (e : Element) : Prop :=
  e.name = "buildCommand" ∧ ∃ c ∈ e.children, c.name = "name"

instance (e : Element) : Decidable e.IsNamedCommand :=
  inferInstanceAs (Decidable (_ ∧ _))

/-- The command that an entry of a build specification gives. -/
structure GivesCommand (e : Element) (c : BuildCommand) : Prop where
  name : ∃ n, IsLast (·.name = "name") e.children n ∧ n.value = c.name
  keys : c.arguments.keys = (e.settings.filterMap key?).eraseDups
  get?_eq_some_iff : ∀ key value?, c.arguments.get? key = some value? ↔
    ∃ s, IsLast (·.key? = some key) e.settings s ∧ value? = some (s.lastValue "value")

/-- An entry gives a command exactly if it is a build command and has a name. -/
private theorem isNamedCommand_iff :
    e.IsNamedCommand ↔ e.name = "buildCommand" ∧ (e.lastValue? "name").isSome := by
  rw [IsNamedCommand, Option.isSome_iff_ne_none, ne_eq, lastValue?_eq_none_iff]
  simp

/-- An entry with a name gives the command that its last name and its arguments say. -/
private theorem command?_of_named (h : e.IsNamedCommand) :
    ∃ c, e.command? = some c ∧ e.GivesCommand c := by
  obtain ⟨isCommand, named⟩ := isNamedCommand_iff.1 h
  obtain ⟨name, found⟩ := Option.isSome_iff_exists.1 named
  refine ⟨⟨name, .ofList (e.settings.filterMap setting?)⟩, ?_, ?_⟩
  · rw [command?, if_pos isCommand, found]
    rfl
  · exact
      { name := lastValue?_eq_some_iff.1 found
        keys := keys_arguments e.settings
        get?_eq_some_iff := get?_arguments e.settings }

/-- Any other entry gives no command. -/
private theorem command?_of_not_named (h : ¬ e.IsNamedCommand) : e.command? = none := by
  unfold command?
  split
  · rename_i isCommand
    -- A build command without a name gives none either.
    have unnamed : ¬ (e.lastValue? "name").isSome := fun named =>
      h (isNamedCommand_iff.2 ⟨isCommand, named⟩)
    rw [Option.map_eq_none_iff, ← Option.not_isSome_iff_eq_none]
    exact unnamed
  · rfl

/-- The commands that some entries give are those of the entries with a name, in order. -/
theorem forall₂_givesCommand (entries : List Element) :
    List.Forall₂ GivesCommand (entries.filter (·.IsNamedCommand))
      (entries.filterMap command?) := by
  induction entries with
  | nil => exact .nil
  | cons e rest ih =>
    -- An entry is on both sides or on neither.
    by_cases named : e.IsNamedCommand
    · obtain ⟨c, given, gives⟩ := command?_of_named named
      rw [List.filter_cons_of_pos (by simpa using named), List.filterMap_cons_some given]
      exact .cons gives ih
    · rw [List.filter_cons_of_neg (by simpa using named),
        List.filterMap_cons_none (command?_of_not_named named)]
      exact ih

/-! ## Problems -/

/-- The problem of an entry of the arguments without a key. -/
def settingFault (e : Element) : Problem :=
  if e.name = "dictionary" then .missingKey else .strayArgument e.name

/-- The problem of an entry of a build specification that gives no command. -/
def commandFault (e : Element) : Problem :=
  if e.name = "buildCommand" then .unnamedCommand else .notACommand e.name

/-- The problems of a build specification: one of each entry that gives no command, and, where an
    entry gives one, one of each entry of its arguments without a key. -/
def commandFaults (spec : Element) : List Problem :=
  spec.children.flatMap fun e =>
    if e.IsNamedCommand then (e.settings.filter (·.key? = none)).map settingFault
    else [e.commandFault]

/-- An entry of the arguments has a problem exactly if it has no key. -/
private theorem settingProblems_eq (e : Element) :
    e.settingProblems = if e.key? = none then [e.settingFault] else [] := by
  unfold settingProblems key? settingFault
  split
  · cases e.lastValue? "key" <;> rfl
  · rfl

/-- The problems of arguments are those of their entries without a key. -/
private theorem flatMap_settingProblems (entries : List Element) :
    entries.flatMap settingProblems = (entries.filter (·.key? = none)).map settingFault := by
  induction entries with
  | nil => rfl
  | cons s rest ih =>
    rw [List.flatMap_cons, ih, settingProblems_eq]
    by_cases keyless : s.key? = none
    · simp [keyless]
    · simp [keyless]

/-- An entry has its own problem, or those in the arguments of its command. -/
private theorem commandProblems_eq (e : Element) :
    e.commandProblems =
      if e.IsNamedCommand then (e.settings.filter (·.key? = none)).map settingFault
      else [e.commandFault] := by
  rw [← flatMap_settingProblems]
  simp only [isNamedCommand_iff]
  unfold commandProblems commandFault
  -- Only a build command is asked for its name.
  by_cases isCommand : e.name = "buildCommand"
  · cases found : e.lastValue? "name" with
    | none => simp [isCommand]
    | some name => simp [isCommand]
  · simp [isCommand]

/-- The problems of a build specification are those of its entries. -/
private theorem flatMap_commandProblems (spec : Element) :
    spec.children.flatMap commandProblems = spec.commandFaults := by
  rw [commandFaults]
  congr 1
  funext e
  exact commandProblems_eq e

end Element

/-! ## Documents -/

namespace Reading

/-- The commands of a description are those of the entries of the last build specification that
    are build commands with a name.  The problems of commands are those of all build
    specifications, in order. -/
theorem buildSpec_ofText [Uri.DomainNames] (content : String) (root spec : Element)
    (read : (Tree.whole (scan content.toList)).root? = some root)
    (name : root.name = "projectDescription")
    (last : IsLast (·.name = "buildSpec") root.children spec) :
    ∃ d, (ofText content).description? = some d ∧
      List.Forall₂ Element.GivesCommand (spec.children.filter (·.IsNamedCommand)) d.buildSpec ∧
      (ofText content).problems.filter (·.subject = .command) =
        (root.named "buildSpec").dropLast.flatMap Element.commandFaults ++ spec.commandFaults := by
  -- The last build specification is the one that is read.
  have decides : root.last? "buildSpec" = some spec := Element.last?_eq_some_iff.2 last
  refine ⟨root.description, ?_, ?_, ?_⟩
  · rw [description?_ofText, read, descriptionOf?, Option.bind_some, if_pos name]
  · have commands : root.description.buildSpec = spec.children.filterMap Element.command? := by
      simp only [Element.description, Element.fromLast, decides]
    rw [commands]
    exact Element.forall₂_givesCommand spec.children
  · -- Problems are recorded for all build specifications, of which the last one is split off.
    have specs : root.named "buildSpec" = (root.named "buildSpec").dropLast ++ [spec] :=
      (List.dropLast_append_getLast? spec decides).symm
    rw [filter_subject_problems read name (by decide), problemsAbout, ← Element.named]
    simp only [Element.flatMap_commandProblems]
    conv => lhs; rw [specs]
    rw [List.flatMap_append, List.flatMap_singleton]

/-- A key that is set again keeps its place; an entry that is no dictionary is a problem. -/
theorem buildSpec_ofText_twice :
    let content := "<projectDescription><buildSpec><buildCommand><name/><arguments><dictionary>" ++
      "<key>k</key></dictionary><other/></arguments><arguments><dictionary><key>k</key>" ++
      "<value>v</value></dictionary></arguments></buildCommand></buildSpec></projectDescription>"
    ∃ root spec d, (Tree.whole (scan content.toList)).root? = some root ∧
      root.name = "projectDescription" ∧ IsLast (·.name = "buildSpec") root.children spec ∧
      (ofText content).description? = some d ∧
      List.Forall₂ Element.GivesCommand (spec.children.filter (·.IsNamedCommand)) d.buildSpec ∧
      (ofText content).problems.filter (·.subject = .command) =
        (root.named "buildSpec").dropLast.flatMap Element.commandFaults ++ spec.commandFaults := by
  intro content
  have found : (Tree.whole (scan content.toList)).root?.map (fun root =>
      (root.name, (root.last? "buildSpec").isSome)) = some ("projectDescription", true) := by
    decide +kernel
  obtain ⟨root, read, parts⟩ := Option.map_eq_some_iff.1 found
  obtain ⟨name, hasSpec⟩ := Prod.mk.inj parts
  obtain ⟨spec, isLast⟩ := Option.isSome_iff_exists.1 hasSpec
  -- There is one container only, so it is the last one.
  have last := Element.last?_eq_some_iff.1 isLast
  obtain ⟨d, description, commands, problems⟩ :=
    buildSpec_ofText content root spec read name last
  exact ⟨root, spec, d, read, name, last, description, commands, problems⟩

end Reading

end ProjectFile
