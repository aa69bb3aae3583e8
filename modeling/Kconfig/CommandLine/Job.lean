import Kconfig.Action.Run
import Kconfig.CommandLine.Arguments
import Kconfig.Model.Load
import Kconfig.Text.Blank
import Kconfig.Text.Split
import Kconfig.Text.Utf8

/-!
# A run of the command line

A job reads the arguments, then the file of names to leave out, then the model; only then does it
create the output file, and the action comes last. So whatever is wrong with the arguments or with
what is read, no file is touched. An action that fails midway leaves behind what it had written.

What a job needs of a file system are two operations, which are its parameters
(`FileAccess`): the same job runs on the files of a machine and on a directory that is a value.

It is a limit of the model that the arguments, and with them the paths, are Unicode strings. A
system may have names of other bytes, and these cannot be asked for here.
-/

namespace Kconfig.CommandLine

/-- The operations on files that a job uses. -/
structure FileAccess (m : Type → Type) where
  /-- The content of a file. -/
  read : (path : String) → m (Except ReadFault (List UInt8))
  /-- Gives a file a content, creating it if need be: whether that was possible. -/
  write : (path : String) → List UInt8 → m Bool

/-- What a job leaves behind, beside its output file. -/
structure Outcome where
  exitCode : Nat
  /-- What was written to the standard output. -/
  stdout : List UInt8 := []
  /-- The messages that were shown. -/
  messages : List Diagnostic := []
  /-- The text of the error, if the job ended with one. -/
  error : Option String := none

/-- The version, as it is shown. -/
def versionText : String := "kclause 0.1.0\n"

/-- The help, as it is shown. -/
def helpText : String :=
  "Usage: kextractor [OPTIONS] <COMMAND> [VAR] [MODEL]\n\n" ++
  "Commands: configs, kconfigs, menusyms, defaults, extract, deps, dump, help\n\n" ++
  "Options: -o/--output FILE, -p/--no-prefix, -P/--set-prefix PREFIX,\n" ++
  "  -D/--direct-dependencies-only, -f/--forceoff VAR, -a/--forceoffall FILE,\n" ++
  "  -v/--verbose, -h/--help, -V/--version\n"

namespace Outcome

/-- Nothing to run. -/
def ofRefusal : Refusal → Outcome
  | .usage => { exitCode := 2 }
  | .help => { exitCode := 0, stdout := utf8 helpText }
  | .version => { exitCode := 0, stdout := utf8 versionText }

/-- An error after some messages. -/
def failure (messages : List Diagnostic) (error : String) : Outcome :=
  { exitCode := 1, messages := messages, error := some error }

/-- The end of an action. What is asked for and not there is no error of the program's making. -/
def ofEnding (messages : List Diagnostic) (stdout : List UInt8) : Except Stop Unit → Outcome
  | .ok () => { exitCode := 0, stdout := stdout, messages := messages }
  | .error (.error e) =>
    { exitCode := 1, stdout := stdout, messages := messages, error := some e.message }
  | .error (.outOfTable _) | .error (.noOrdering _) =>
    { exitCode := 101, stdout := stdout, messages := messages }

end Outcome

/-- The text of a file that is to be read as one. -/
def textOf? (bytes : List UInt8) : Option (List Char) :=
  (Text.Utf8.decode bytes).mapM id

/-- The names in a text: its lines without the blanks around them, those that are not empty. -/
def namesOf (text : List Char) : List String :=
  (((Text.splitAt '\n' text).map Text.trim).filter fun line => !line.isEmpty).map String.ofList

/-- The error for a file that cannot be opened, by what it was asked for. -/
def cannotOpen (path : String) : String :=
  "can't open " ++ path

variable {m : Type → Type} [Monad m]

/-- The settings of an invocation, with the names in its file; or the error, if the file cannot be
read as text. -/
def settingsOf (access : FileAccess m) (given : Given) : m (Except String Settings) := do
  match given.forceOffFile with
  | none => return .ok given.settings
  | some path =>
    match ← access.read path with
    | .error _ => return .error (cannotOpen path)
    | .ok bytes =>
      match textOf? bytes with
      | none => return .error (cannotOpen path)
      | some text => return .ok (given.settings.withForceOff (namesOf text))

/-- Writes what the action writes, and tells how it ended. -/
def perform (access : FileAccess m) (output : Option String) (before : List Diagnostic)
    (settings : Settings) (run : Run Unit) : m Outcome := do
  let shown := fun (messages : List Diagnostic) => messages.filter (settings.shows ·.level)
  let messages := shown (before ++ run.messages)
  match output with
  | none => return .ofEnding messages (utf8 run.output) run.ending
  | some path =>
    if ← access.write path (utf8 run.output) then return .ofEnding messages [] run.ending
    else return .failure (shown before) (cannotOpen path)

/-- Runs an invocation. -/
def invoke (access : FileAccess m) (i : Invocation) : m Outcome := do
  match ← settingsOf access i.given with
  | .error e => return .failure [] e
  | .ok settings =>
    let loading := Model.load i.model (← access.read i.model)
    let before := .settings settings :: loading.messages
    match loading.ending with
    | .ok model =>
      let before := before ++ [.loadedFrom model.symbols.size i.model]
      perform access i.given.output before settings (i.action.run model settings)
    | .error e => return .ofEnding (before.filter (settings.shows ·.level)) [] (.error e)

/-- Runs a command line. -/
def run (access : FileAccess m) (args : List String) : m Outcome :=
  match parse args with
  | .ok i => invoke access i
  | .error e => return .ofRefusal e

/-- A message as the log shows it. The lowest level comes with its origin. -/
def logLine (d : Diagnostic) : String :=
  match d.level with
  | .debug => "[" ++ d.level.label ++ "] (1) " ++ d.component ++ ": " ++ d.message
  | .info | .warn => "[" ++ d.level.label ++ "] " ++ d.message

end Kconfig.CommandLine
