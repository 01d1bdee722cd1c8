import ProjectFile.Cli.Run

/-! # The program

The outer layer of the command line: it gives the commands access to the files of the system,
prints what they print, and logs to the standard error. -/

namespace ProjectFile.Cli

/-- The fault that an error of the system stands for. -/
def faultOfSystem : IO.Error → FileFault
  | .noFileOrDirectory .. => .notFound
  | .inappropriateType _ 20 _ => .notADirectory
  | .inappropriateType _ 21 _ => .isADirectory
  | e => .other (toString e)

/-- Reads what a file that is open holds. -/
def readHandle (handle : IO.FS.Handle) : IO Source := do
  try
    return { bytes := ← handle.readBinToEnd }
  catch e => return { bytes := .empty, failure? := some (faultOfSystem e).message }

/-- Opens the file at a path. -/
def openSystemFile (path : String) : IO (Except FileFault Source) := do
  try
    return .ok (← readHandle (← IO.FS.Handle.mk path .read))
  catch e => return .error (faultOfSystem e)

/-- Writes the file at a path. -/
def createSystemFile (path : String) (bytes : ByteArray) : IO (Except FileFault Unit) := do
  try
    IO.FS.writeBinFile path bytes
    return .ok ()
  catch e => return .error (faultOfSystem e)

instance : FileAccess IO where
  openFile := openSystemFile
  createFile := createSystemFile

end ProjectFile.Cli

open ProjectFile ProjectFile.Cli in
/-- Runs the program. -/
def main (arguments : List String) : IO UInt32 := do
  let home? ← IO.getEnv "HOME"
  let directory? ← IO.getEnv "XDG_CONFIG_HOME"
  let userSettings? := home?.map fun home => Settings.defaultPath home directory?
  let outcome ← run userSettings? arguments
  let shown := LogFilter.ofSetting (← IO.getEnv "RUST_LOG")
  (← IO.getStdout).putStr outcome.printed
  (← IO.getStderr).putStr (renderLog shown outcome.events)
  return UInt32.ofNat outcome.exitCode
