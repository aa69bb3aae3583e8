import Kconfig.CommandLine.Job

/-!
# The program

Runs a command line on the files of the machine. What happens is decided by the job; here its
operations are carried out and its outcome is shown.
-/

namespace Kconfig.Main

open Kconfig.CommandLine

/-- The cause of failure as the system gives it. -/
def causeOf : IO.Error → String
  | .noFileOrDirectory .. => "No such file or directory (os error 2)"
  | .permissionDenied .. => "Permission denied (os error 13)"
  | .inappropriateType .. => "Not a directory (os error 20)"
  | e => toString e

/-- The content of a file of the machine. -/
def read (path : String) : IO (Except ReadFault (List UInt8)) := do
  match ← (IO.FS.Handle.mk path .read).toBaseIO with
  | .error e => return .error (.cannotOpen (causeOf e))
  | .ok handle =>
    match ← handle.readBinToEnd.toBaseIO with
    | .error _ => return .error .unreadable
    | .ok bytes => return .ok bytes.data.toList

/-- Gives a file of the machine a content. -/
def write (path : String) (content : List UInt8) : IO Bool := do
  match ← (IO.FS.writeBinFile path ⟨content.toArray⟩).toBaseIO with
  | .error _ => return false
  | .ok () => return true

/-- The operations of a job on the files of the machine. -/
def access : FileAccess IO where
  read := read
  write := write

end Kconfig.Main

open Kconfig Kconfig.CommandLine in
/-- Runs the command line of the program. -/
def main (args : List String) : IO UInt32 := do
  let outcome ← CommandLine.run Main.access args
  let stdout ← IO.getStdout
  for d in outcome.messages do
    stdout.putStrLn (logLine d)
  stdout.write ⟨outcome.stdout.toArray⟩
  stdout.flush
  if let some e := outcome.error then IO.eprintln ("Error: " ++ e)
  if outcome.exitCode = 2 then IO.eprintln helpText
  return UInt32.ofNat outcome.exitCode
