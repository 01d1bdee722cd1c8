import ProjectFile.Cli.Event
import ProjectFile.Text.Number
import ProjectFile.Text.WhiteSpace

/-! # What a log shows

A setting tells what a log shows.  It holds directives between commas; each of them gives a
verbosity for what it is about, which may be everything, the components whose names start in some
way, or what happens during an activity:

* `warn` is about everything, and `dotproject::reader=debug` about a component;
* `[read]=debug` is about an activity, and `dotproject[read]=debug` about an activity of some
  components.

Of the directives about an event, the one that says most about its component decides.  What a
directive about an activity shows is shown besides.  A setting that cannot be understood is as
good as none. -/

namespace ProjectFile.Cli

open ProjectFile.Text

/-- How much is shown: nothing, or the events up to a level. -/
abbrev Verbosity := Option Level

namespace Verbosity

/-- The number of levels that are shown. -/
def rank : Verbosity → Nat
  | none => 0
  | some level => level.rank + 1

/-- Whether events of a level are shown. -/
def covers (v : Verbosity) (level : Level) : Bool :=
  level.rank < v.rank

/-- Shows all there is. -/
def all : Verbosity := some .debug

/-- The verbosities in their order, each with its name. -/
def named : List (String × Verbosity) :=
  [("off", none), ("error", some .error), ("warn", some .warn), ("info", some .info),
   ("debug", some .debug), ("trace", all)]

/-- A verbosity by its name, in any case, or by its place in the order. -/
def ofText? (s : String) : Option Verbosity :=
  match unsigned? (Nat.pow 2 64) s.toList with
  | some place => (named[place]?).map Prod.snd
  | none => named.lookup s.toLower

end Verbosity

/-! ## Directives -/

/-- A field that events or activities have to have; with a value, it has to have that value. -/
structure FieldName where
  name : String
  hasValue : Bool
deriving DecidableEq, Repr

/-- What a directive is about. -/
structure Subject where
  /-- How the name of the component starts. -/
  component? : Option String := none
  activity? : Option String := none
  field? : Option FieldName := none
deriving DecidableEq, Repr

/-- A part of a setting. -/
structure Directive where
  subject : Subject
  verbosity : Verbosity
deriving DecidableEq, Repr

namespace Subject

/-- Whether a subject is about a component. -/
def hasComponent (s : Subject) (c : Component) : Bool :=
  match s.component? with
  | some start => c.name.startsWith start
  | none => true

/-- Whether a subject holds at all times, and not during activities alone. -/
def isLasting (s : Subject) : Bool :=
  s.activity?.isNone && !(s.field?.any FieldName.hasValue)

/-- Whether a subject is about the events of a component.  All they have is a message. -/
def hasEvents (s : Subject) (c : Component) : Bool :=
  s.hasComponent c && s.field?.all fun f => f.name == "message"

/-- Whether a subject is about the activity of a component, which has no fields. -/
def hasActivity (s : Subject) (c : Component) : Bool :=
  s.activity?.isSome && s.activity? == c.activity? && s.hasComponent c && s.field?.isNone

/-- How much a subject says about a component. -/
def specificity (s : Subject) : Nat :=
  let ofComponent := match s.component? with
    | some start => start.length + 1
    | none => 0
  2 * ofComponent + if s.field?.isSome then 1 else 0

end Subject

/-! ## Reading directives -/

/-- Whether a directive may start with a character.  Letters other than the Latin ones may start
    it, too. -/
def startsDirective (c : Char) : Bool :=
  c.isAlphanum || "[-:_".toList.contains c || 0x80 ≤ c.toNat

/-- Whether a character belongs to the name of a component at the front of a directive. -/
def inComponent (c : Char) : Bool :=
  c != '=' && c != '['

/-- The verbosity after the equals sign of a directive; without a name, all is shown. -/
def givenVerbosity? (s : List Char) : Option Verbosity :=
  if s = [] then some .all else Verbosity.ofText? (String.ofList s)

/-- The verbosity at the end of a directive, which may be left out. -/
def endVerbosity? (s : List Char) : Option Verbosity :=
  match s with
  | '=' :: rest => givenVerbosity? rest
  | s => if s.all isWhiteSpace then some .all else none

/-- The field between braces. -/
def fieldName? (s : List Char) : Option FieldName :=
  if s = [] then none
  else some ⟨String.ofList (s.takeWhile (· != '=')), s.contains '='⟩

/-- The rest of a directive after an opening bracket: an activity, a field, or both. -/
def activityDirective? (component? : Option String) (s : List Char) : Option Directive := do
  let inName (c : Char) : Bool := c != ']' && c != '\x7b'
  let name := String.ofList (s.takeWhile inName)
  match s.dropWhile inName with
  | ']' :: rest => some ⟨{ component?, activity? := some name }, ← endVerbosity? rest⟩
  -- A brace opens the name of a field.
  | _ :: rest =>
    let field ← fieldName? (rest.takeWhile (· != '\x7d'))
    match rest.dropWhile (· != '\x7d') with
    | _ :: ']' :: rest =>
      let activity? := if name = "" then none else some name
      some ⟨{ component?, activity?, field? := some field }, ← endVerbosity? rest⟩
    | _ => none
  | [] => none

/-- A directive.  White space is not left out: it is part of the name beside it, and after white
    space no verbosity is understood. -/
def directive? (s : List Char) : Option Directive := do
  guard (startsDirective (← (trimLeft s).head?))
  let word := s.takeWhile inComponent
  let component? := if word = [] then none else some (String.ofList word)
  -- A word alone is a level, or the name of a component that logs everything.
  let d ← match s.dropWhile inComponent with
    | [] =>
      let text := String.ofList s
      match Verbosity.ofText? text with
      | some v => some ⟨{}, v⟩
      | none => some ⟨{ component? := some text }, .all⟩
    | c :: rest =>
      if c = '=' then (givenVerbosity? rest).map fun v => ⟨{ component? }, v⟩
      else activityDirective? component? rest
  guard (!s.contains '=' || trimLeft s == s)
  some d

/-! ## Filters -/

/-- What a log shows. -/
structure LogFilter where
  /-- The directives, of which no two are about the same. -/
  directives : List Directive
  /-- No activity is followed unless some directive is verbose enough. -/
  followsActivities : Bool

namespace LogFilter

/-- Adds a directive.  It takes the place of one about the same. -/
def add (f : LogFilter) (d : Directive) : LogFilter :=
  { directives := f.directives.filter (·.subject != d.subject) ++ [d]
    followsActivities := f.followsActivities || d.verbosity.covers .debug ||
      d.subject.field?.any FieldName.hasValue }

/-- The filter with some directives. -/
def ofDirectives (ds : List Directive) : LogFilter :=
  ds.foldl add ⟨[], false⟩

/-- The filter of a setting.  If it is understood but says nothing, errors are shown. -/
def ofText? (s : String) : Option LogFilter := do
  let pieces := (s.toList.splitOn ',').filter (· ≠ [])
  let ds ← pieces.mapM directive?
  some (ofDirectives (if ds = [] then [⟨{}, some .error⟩] else ds))

/-- The filter of a setting, if there is one.  Otherwise, all but what helps debugging is shown. -/
def ofSetting (setting? : Option String) : LogFilter :=
  (setting?.bind ofText?).getD (ofDirectives [⟨{}, some .info⟩])

/-- The verbosity of the lasting directive that says most, of those whose subject is right. -/
def lasting (f : LogFilter) (isRight : Subject → Bool) : Verbosity :=
  let better (best : Option Directive) (d : Directive) : Option Directive :=
    match best with
    | some b => if d.subject.specificity < b.subject.specificity then best else some d
    | none => some d
  let candidates := f.directives.filter fun d => d.subject.isLasting && isRight d.subject
  (candidates.foldl better none).bind Directive.verbosity

/-- The directives about the activity of a component. -/
def during (f : LogFilter) (c : Component) : List Directive :=
  f.directives.filter fun d => d.subject.hasActivity c

/-- Whether the activity of a component is followed: its events show in which activity they came
    up, and directives about it hold. -/
def follows (f : LogFilter) (c : Component) : Bool :=
  f.followsActivities && c.activity?.isSome &&
    (!(f.during c).isEmpty || (f.lasting fun s => s.hasComponent c).covers .debug)

/-- Whether an event is shown. -/
def shows (f : LogFilter) (e : Event) : Bool :=
  (f.lasting fun s => s.hasEvents e.component).covers e.level ||
    (f.follows e.component && (f.during e.component).any fun d => d.verbosity.covers e.level)

end LogFilter

end ProjectFile.Cli
