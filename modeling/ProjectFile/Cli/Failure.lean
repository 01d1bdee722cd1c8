import ProjectFile.Reading.Reader
import ProjectFile.Settings.Load

/-! # Failures of a command

A command that fails says why, and what that is due to. -/

namespace ProjectFile.Cli

open ProjectFile.Text

/-- Why a command fails. -/
inductive Failure where
  /-- There is no place for the settings of the user. -/
  | noSettingsPlace
  | settings (fault : LoadFault)
  | cannotOpen (path : String) (fault : FileFault)
  | cannotRead (path : String) (fault : ReadFault)
  | cannotCreate (path : String) (fault : FileFault)
  | notADescription (path : String)
  /-- Some of the files that were checked do not pass. -/
  | failedCheck (failed total : Nat)

/-- What is said of a file without a description. -/
def notADescriptionMessage (path : String) : String :=
  s!"{quote path} is not a project description"

/-- The text of a failure, without its causes. -/
def Failure.message : Failure → String
  | .noSettingsPlace => "cannot determine absolute path to user's configuration directory"
  | .settings (.unread path _) => s!"failed to read configuration at {quote path}"
  | .settings (.settings fault) => fault.report
  | .cannotOpen path _ => s!"cannot open {quote path}"
  | .cannotRead path _ => s!"cannot read {quote path}"
  | .cannotCreate path _ => s!"cannot create {quote path}"
  | .notADescription path => notADescriptionMessage path
  | .failedCheck failed total => s!"{failed} of {total} file(s) failed check"

/-- The causes of a failure, the nearest first. -/
def Failure.causes : Failure → List String
  | .settings (.unread _ cause) => [cause]
  | .cannotOpen _ fault => [fault.message]
  | .cannotRead _ fault => [fault.message, fault.cause.message]
  | .cannotCreate _ fault => [fault.message]
  | _ => []

/-- The numbered lines of some causes. -/
def numbered (k : Nat) : List String → List String
  | [] => []
  | cause :: rest => s!"    {k}: {cause}" :: numbered (k + 1) rest

/-- The text of a failure with its causes below it; several causes are numbered. -/
def Failure.report (f : Failure) : String :=
  let causes := match f.causes with
    | [] => []
    | [cause] => ["", "Caused by:", s!"    {cause}"]
    | causes => "" :: "Caused by:" :: numbered 0 causes
  "\n".intercalate (f.message :: causes)

end ProjectFile.Cli
