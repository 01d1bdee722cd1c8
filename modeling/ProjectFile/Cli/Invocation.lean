import ProjectFile.Cli.Help
import ProjectFile.Settings.Basic

/-! # Invocations

The arguments of the command line name a command and its options.  `Invocation.ofArguments`
reads them.

A long option stands after two dashes, and its value after an equals sign or in the next
argument.  Short options stand after one dash, several of them together if only the last one has
a value; the value follows at once, after an equals sign, or in the next argument.  After an
argument of two dashes there are no more options.

Arguments are read from left to right, and the first that is wrong, or asks about the program,
decides. -/

namespace ProjectFile.Cli

/-- What is to be done. -/
inductive Command where
  | check (files : List String) (strict : Bool)
  | show (file : String)
  | format (file : String) (output? : Option String) (separator? : Option LineSeparator)
deriving DecidableEq, Repr

/-- A command, with the settings file if one is named. -/
structure Invocation where
  settings? : Option String := none
  command : Command
deriving DecidableEq, Repr

/-- Why there is no invocation: the arguments are wrong, or ask about the program. -/
inductive Refusal where
  | misuse
  | help (topic : Topic)
  | version
deriving DecidableEq, Repr

/-- The options and operands that were given so far. -/
structure Given where
  settings? : Option String := none
  strict : Bool := false
  output? : Option String := none
  separator? : Option LineSeparator := none
  operands : List String := []
deriving DecidableEq, Repr

/-! ## Options and operands -/

/-- A path may not be empty. -/
def path (s : String) : Except Refusal String :=
  if s = "" then .error .misuse else .ok s

/-- The separator that an option names. -/
def separator (s : String) : Except Refusal LineSeparator :=
  match LineSeparator.ofName? s with
  | some l => .ok l
  | none => .error .misuse

/-- No option may be given twice. -/
def once (given? : Option α) (value : Except Refusal α) : Except Refusal (Option α) :=
  if given?.isSome then .error .misuse else value.map some

namespace Given

/-- Adds an option with its value.  The options that ask about the program end the reading. -/
def addOption (g : Given) (topic : Topic) (name : OptionName) (value : String) :
    Except Refusal Given :=
  match name with
  | .settings => return { g with settings? := ← once g.settings? (path value) }
  | .strict => if g.strict then .error .misuse else .ok { g with strict := true }
  | .output => return { g with output? := ← once g.output? (path value) }
  | .separator => return { g with separator? := ← once g.separator? (separator value) }
  | .help => .error (.help topic)
  | .version => .error .version

/-- Adds an operand.  Only a check takes more than one. -/
def addOperand (g : Given) (topic : Topic) (operand : String) : Except Refusal Given := do
  let file ← path operand
  if topic ≠ .check ∧ g.operands ≠ [] then throw .misuse
  pure { g with operands := g.operands ++ [file] }

/-- Adds the option of an argument after its two dashes.  If its value is the next argument, gives
    its name instead. -/
def addLong (g : Given) (topic : Topic) (s : List Char) :
    Except Refusal (Given × Option OptionName) :=
  let long := String.ofList (s.takeWhile (· != '='))
  match topic.options.find? (·.long == long) with
  | none => .error .misuse
  | some form =>
    match form.value?.isSome, s.dropWhile (· != '=') with
    | true, [] => .ok (g, some form.name)
    | true, _ :: value => return (← g.addOption topic form.name (String.ofList value), none)
    | false, [] => return (← g.addOption topic form.name "", none)
    | false, _ => .error .misuse

/-- Adds the options of an argument after its one dash.  If the value of the last one is the next
    argument, gives the name of that one. -/
def addShort (g : Given) (topic : Topic) : List Char → Except Refusal (Given × Option OptionName)
  | [] => .ok (g, none)
  | c :: rest =>
    match topic.options.find? (·.short == c) with
    | none => .error .misuse
    | some form =>
      -- A flag may be followed by more options in the same argument, a value takes all the rest.
      if form.value?.isNone then do
        addShort (← g.addOption topic form.name "") topic rest
      else
        match rest with
        | [] => .ok (g, some form.name)
        | '=' :: value => return (← g.addOption topic form.name (String.ofList value), none)
        | value => return (← g.addOption topic form.name (String.ofList value), none)

/-- Adds the options of an argument. -/
def addOptions (g : Given) (topic : Topic) (argument : String) :
    Except Refusal (Given × Option OptionName) :=
  match argument.toList with
  | '-' :: '-' :: long => g.addLong topic long
  | _ :: short => g.addShort topic short
  | [] => .ok (g, none)

end Given

/-- Whether an argument holds options.  It is no value of the option before it, then. -/
def holdsOptions (argument : String) : Bool :=
  argument.startsWith "-" && argument != "-"

/-! ## Arguments -/

/-- Reads the arguments of a command, where the next one may be the value that an option awaits. -/
def readArguments (topic : Topic) (g : Given) (awaiting? : Option OptionName) :
    List String → Except Refusal Given
  | [] => if awaiting?.isSome then .error .misuse else .ok g
  | argument :: rest =>
    match awaiting? with
    | some name =>
      -- What looks like options is no value.
      if holdsOptions argument then .error .misuse
      else do readArguments topic (← g.addOption topic name argument) none rest
    | none =>
      -- Behind two dashes all arguments are operands, whatever they look like.
      if argument = "--" then rest.foldlM (fun g operand => g.addOperand topic operand) g
      else if holdsOptions argument then do
        let (g, awaiting?) ← g.addOptions topic argument
        readArguments topic g awaiting? rest
      else do readArguments topic (← g.addOperand topic argument) none rest

/-- An option whose value is yet to be looked at. -/
abbrev Unsettled := Option (OptionName × String)

/-- Adds an option whose value is yet to be looked at. -/
def Given.settle (g : Given) : Unsettled → Except Refusal Given
  | none => .ok g
  | some (name, value) => g.addOption .program name value

/-- The arguments, as far as the name of the command. -/
structure Leading where
  given : Given
  unsettled : Unsettled
  command : String
  rest : List String

/-- Reads the arguments as far as the name of the command.  A value in an argument of its own is
    looked at only with the next options, so one right before the command stays unsettled. -/
def readLeading (g : Given) (unsettled : Unsettled) (awaiting? : Option OptionName) :
    List String → Except Refusal Leading
  | [] => .error .misuse
  | argument :: rest =>
    match awaiting? with
    | some name =>
      if holdsOptions argument then .error .misuse
      else readLeading g (some (name, argument)) none rest
    | none =>
      if holdsOptions argument then do
        -- Another option follows, so the one before it has its value for good.
        let g ← g.settle unsettled
        let (g, awaiting?) ← g.addOptions .program argument
        readLeading g none awaiting? rest
      else .ok ⟨g, unsettled, argument, rest⟩

/-- The one operand. -/
def singleOperand : List String → Except Refusal String
  | [file] => .ok file
  | _ => .error .misuse

/-- The topic of a request for help, which names at most one command. -/
def helpTopic : List String → Except Refusal Topic
  | [] => .ok .program
  | [name] =>
    match Topic.ofName? name with
    | some topic => .ok topic
    | none => .error .misuse
  | _ => .error .misuse

/-- The command with a name, and the settings file that its arguments name. -/
def readCommand (name : String) (arguments : List String) :
    Except Refusal (Command × Option String) :=
  match name with
  | "check" => do
    let g ← readArguments .check {} none arguments
    if g.operands = [] then throw .misuse
    pure (.check g.operands g.strict, g.settings?)
  | "show" => do
    let g ← readArguments .show {} none arguments
    pure (.show (← singleOperand g.operands), g.settings?)
  | "format" => do
    let g ← readArguments .format {} none arguments
    pure (.format (← singleOperand g.operands) g.output? g.separator?, g.settings?)
  | "help" => do throw (.help (← helpTopic arguments))
  | _ => .error .misuse

/-- Reads the arguments of the command line.  A settings file that is named after the command
    wins over one before it. -/
def Invocation.ofArguments (arguments : List String) : Except Refusal Invocation := do
  let leading ← readLeading {} none none arguments
  let (command, after?) ← readCommand leading.command leading.rest
  let g ← leading.given.settle leading.unsettled
  pure { settings? := after?.or g.settings?, command }

end ProjectFile.Cli
