import ProjectFile.Files
import ProjectFile.Settings.Decode

/-! # Loading settings

Settings are loaded from a file.  Without the file, all settings have their defaults. -/

namespace ProjectFile

/-- Why settings cannot be loaded. -/
inductive LoadFault where
  /-- The file cannot be read, for the reason that `cause` tells. -/
  | unread (path cause : String)
  | settings (fault : SettingsFault)

/-- The settings of a file that is open. -/
def Settings.ofSource (path : String) (s : Source) : Except LoadFault Settings :=
  match s.text with
  | .error fault => .error (.unread path fault.message)
  | .ok text => (Settings.ofText text).mapError .settings

/-- The settings of a file: nothing if there is no such file. -/
def Settings.load? [Monad m] [FileAccess m] (path : String) :
    m (Except LoadFault (Option Settings)) := do
  match ← FileAccess.openFile path with
  | .error .notFound => return .ok none
  | .error fault => return .error (.unread path fault.message)
  | .ok source => return (Settings.ofSource path source).map some

end ProjectFile
