/-! # Events

What a run of the program has to tell on the way.  An event has a level, which says how much it
matters, and comes from a part of the program. -/

namespace ProjectFile.Cli

/-- How much an event matters. -/
inductive Level where
  | error
  | warn
  | info
  | debug
deriving DecidableEq, Repr

namespace Level

/-- The place of a level, the most important first. -/
def rank : Level → Nat
  | .error => 0
  | .warn => 1
  | .info => 2
  | .debug => 3

/-- The name of a level, in five columns. -/
def column : Level → String
  | .error => "ERROR"
  | .warn => " WARN"
  | .info => " INFO"
  | .debug => "DEBUG"

end Level

/-- A part of the program. -/
inductive Component where
  | program
  | settings
  | reader
  | writer
deriving DecidableEq, Repr

namespace Component

/-- The name of a component. -/
def name : Component → String
  | .program => "dotproject"
  | .settings => "dotproject::config"
  | .reader => "dotproject::reader"
  | .writer => "dotproject::writer"

/-- What a component is about when it tells something, if that has a name of its own. -/
def activity? : Component → Option String
  | .program => none
  | .settings => none
  | .reader => some "read"
  | .writer => some "write"

end Component

/-- An event. -/
structure Event where
  level : Level
  component : Component
  message : String
deriving DecidableEq, Repr

end ProjectFile.Cli
