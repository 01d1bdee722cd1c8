import ProjectFile.Cli.LogFilter
import ProjectFile.Text.Quoted

/-! # The log

The text of a log: one line for each event that its filter shows. -/

namespace ProjectFile.Cli

open ProjectFile.Text

/-- A character of a message as the log shows it: controls that a terminal would act on are
    written by their code. -/
def showChar (c : Char) : List Char :=
  if c = '\x1b' then "\\x1b".toList
  else if c = '\x07' then "\\x07".toList
  else if c = '\x08' then "\\x08".toList
  else if c = '\x0c' then "\\x0c".toList
  else if c = '\x7f' then "\\x7f".toList
  else if 0x80 ≤ c.toNat ∧ c.toNat ≤ 0x9f then
    ['\\', 'u', '\x7b'] ++ hexDigits c.toNat ++ ['\x7d']
  else [c]

/-- The line of an event.  An activity that is followed stands before the message. -/
def Event.line (e : Event) (f : LogFilter) : String :=
  let activity := match e.component.activity? with
    | some a => if f.follows e.component then a ++ ": " else ""
    | none => ""
  e.level.column ++ " " ++ activity ++ String.ofList (e.message.toList.flatMap showChar) ++ "\n"

/-- The text of a log. -/
def renderLog (f : LogFilter) (events : List Event) : String :=
  String.join ((events.filter f.shows).map (Event.line · f))

end ProjectFile.Cli
