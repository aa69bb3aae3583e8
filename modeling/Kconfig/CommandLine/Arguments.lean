import Kconfig.Action.Basic
import Kconfig.Settings

/-!
# Arguments

A command line is a command with its operands, and options before or after the command. The
options are the same on both sides, but each side is judged by itself: on one side no option but
the repeatable one may be given twice, and no option together with one that it excludes. Where both
sides give an option, the side after the command counts.

The reader takes one argument at a time. Between arguments it knows the command, if there was one,
the options of each side, and whether an option is still without its value. A value that is an
argument by itself is judged with what comes after it on its side, and if nothing does, when all
arguments are read. So what is wrong with the last value before the command does not keep the help
from being shown, if what follows asks for it.

It is a limit of the model that arguments are Unicode texts: a system may pass other bytes too.
-/

namespace Kconfig.CommandLine

/-- An option. -/
inductive Key where
  /-- Write to a file. -/
  | output
  /-- Write names as they are. -/
  | noPrefix
  /-- Write names after a prefix. -/
  | setPrefix
  /-- Leave out what selects a symbol. -/
  | directOnly
  /-- Leave a name out of the listing of defaults. -/
  | forceOff
  /-- Leave the names in a file out of the listing of defaults. -/
  | forceOffFile
  /-- Show all messages. -/
  | verbose
  | help
  | version
deriving DecidableEq

namespace Key

/-- The option of a long name. -/
def ofLong? : String → Option Key
  | "output" => some output
  | "no-prefix" => some noPrefix
  | "set-prefix" => some setPrefix
  | "direct-dependencies-only" => some directOnly
  | "forceoff" => some forceOff
  | "forceoffall" => some forceOffFile
  | "verbose" => some verbose
  | "help" => some help
  | "version" => some version
  | _ => none

/-- The option of a letter. -/
def ofLetter? : Char → Option Key
  | 'o' => some output
  | 'p' => some noPrefix
  | 'P' => some setPrefix
  | 'D' => some directOnly
  | 'f' => some forceOff
  | 'a' => some forceOffFile
  | 'v' => some verbose
  | 'h' => some help
  | 'V' => some version
  | _ => none

/-- Whether the option has a value. -/
def takesValue : Key → Bool
  | output | setPrefix | forceOff | forceOffFile => true
  | noPrefix | directOnly | verbose | help | version => false

end Key

/-- A command. -/
inductive Command where
  /-- An action on a whole model. -/
  | whole (action : Action)
  /-- The dependencies of a symbol, which is the first operand. -/
  | deps
deriving DecidableEq

/-- The command of a name. -/
def Command.ofName? : String → Option Command
  | "configs" => some (whole .configs)
  | "kconfigs" => some (whole .kconfigs)
  | "menusyms" => some (whole .menuSymbols)
  | "defaults" => some (whole .defaults)
  | "extract" => some (whole .extract)
  | "deps" => some deps
  | "dump" => some (whole .dump)
  | _ => none

/-- Why there is nothing to run. -/
inductive Refusal where
  /-- The arguments are not well formed. -/
  | usage
  /-- The help was asked for. -/
  | help
  /-- The version was asked for. -/
  | version
deriving DecidableEq

/-- The options given on one side of the command. -/
structure Given where
  output : Option String := none
  noPrefix : Bool := false
  setPrefix : Option String := none
  directOnly : Bool := false
  forceOff : List String := []
  forceOffFile : Option String := none
  verbose : Bool := false
deriving DecidableEq

namespace Given

/-- An option without a value. -/
def flag (g : Given) : Key → Except Refusal Given
  | .noPrefix => if g.noPrefix then .error .usage else .ok { g with noPrefix := true }
  | .directOnly => if g.directOnly then .error .usage else .ok { g with directOnly := true }
  | .verbose => if g.verbose then .error .usage else .ok { g with verbose := true }
  | .help => .error .help
  | .version => .error .version
  | .output | .setPrefix | .forceOff | .forceOffFile => .error .usage

/-- An option with its value. The name of a file is not empty. -/
def value (g : Given) (key : Key) (v : String) : Except Refusal Given :=
  match key with
  | .output =>
    if g.output.isSome || v = "" then .error .usage else .ok { g with output := some v }
  | .setPrefix => if g.setPrefix.isSome then .error .usage else .ok { g with setPrefix := some v }
  | .forceOff => .ok { g with forceOff := g.forceOff ++ [v] }
  | .forceOffFile =>
    if g.forceOffFile.isSome || v = "" then .error .usage else .ok { g with forceOffFile := some v }
  | .noPrefix | .directOnly | .verbose | .help | .version => .error .usage

/-- Whether two options exclude each other. -/
def isContradictory (g : Given) : Bool :=
  g.noPrefix && g.setPrefix.isSome

/-- The options of both sides, those of `inner`, which stand after the command, going first. -/
def merge (outer inner : Given) : Given where
  output := inner.output <|> outer.output
  noPrefix := outer.noPrefix || inner.noPrefix
  setPrefix := inner.setPrefix <|> outer.setPrefix
  directOnly := outer.directOnly || inner.directOnly
  forceOff := if inner.forceOff.isEmpty then outer.forceOff else inner.forceOff
  forceOffFile := inner.forceOffFile <|> outer.forceOffFile
  verbose := outer.verbose || inner.verbose

/-- The settings that the options choose, without the names in a file. -/
def settings (g : Given) : Settings where
  namePrefix := if g.noPrefix then "" else g.setPrefix.getD "CONFIG_"
  reverseDependencies := !g.directOnly
  verbose := g.verbose
  forceOff := g.forceOff

end Given

/-- What is to be run. -/
structure Invocation where
  action : Action
  /-- The file that holds the model. -/
  model : String
  given : Given
deriving DecidableEq

/-- What is read of the arguments. -/
structure Reading where
  command : Option Command := none
  /-- The operands of the command, the latest first. -/
  operands : List String := []
  /-- The options before the command. -/
  outer : Given := {}
  /-- The options after the command. -/
  inner : Given := {}
  /-- An option that is still without its value. -/
  pending : Option Key := none
  /-- Whether there are no more options, and no command, to come. -/
  plain : Bool := false
  /-- Whether a value before the command is to be refused, if nothing else comes of the arguments. -/
  late : Bool := false

namespace Reading

/-- The options of the present side. -/
def side (r : Reading) : Given :=
  if r.command.isSome then r.inner else r.outer

/-- The reading with other options on the present side. -/
def withSide (r : Reading) (g : Given) : Reading :=
  if r.command.isSome then { r with inner := g } else { r with outer := g }

/-- Whether an option can be given on the present side. -/
def allows (r : Reading) (key : Key) : Bool :=
  key ≠ .version || r.command.isNone

/-- An option without a value. -/
def flag (r : Reading) (key : Key) : Except Refusal Reading :=
  match r.side.flag key with
  | .ok g => .ok (r.withSide g)
  | .error e => .error e

/-- An option with its value. -/
def value (r : Reading) (key : Key) (v : String) : Except Refusal Reading :=
  match r.side.value key v with
  | .ok g => .ok { r.withSide g with pending := none }
  | .error e => .error e

/-- An option with its value, which is an argument by itself. Before the command a value that will
not do is refused late. -/
def due (r : Reading) (key : Key) (v : String) : Except Refusal Reading :=
  match r.value key v with
  | .ok r => .ok r
  | .error e =>
    if r.command.isNone then .ok { r with pending := none, late := true } else .error e

/-- An option by its long name, with what stands after a `=`, if there is one. -/
def long (r : Reading) (name : String) (attached : Option String) : Except Refusal Reading :=
  match Key.ofLong? name with
  | none => .error .usage
  | some key =>
    if r.allows key then
      match key.takesValue, attached with
      | true, some v => r.value key v
      | true, none => .ok { r with pending := some key }
      | false, none => r.flag key
      | false, some _ => .error .usage
    else .error .usage

/-- Options by their letters. The first that takes a value takes the rest, without a `=` before
it, or else the next argument. -/
def letters (r : Reading) : List Char → Except Refusal Reading
  | [] => .ok r
  | c :: rest =>
    match Key.ofLetter? c with
    | none => .error .usage
    | some key =>
      if r.allows key then
        if key.takesValue then
          match rest with
          | [] => .ok { r with pending := some key }
          | '=' :: v => r.value key (String.ofList v)
          | v => r.value key (String.ofList v)
        else
          match r.flag key with
          | .ok r => r.letters rest
          | .error e => .error e
      else .error .usage

/-- An operand of the command: the symbol for `deps`, and the file that holds the model, whose
name is not empty. -/
def operand (r : Reading) (arg : String) : Except Refusal Reading :=
  match r.command, r.operands with
  | some .deps, [] => .ok { r with operands := [arg] }
  | some .deps, [symbol] =>
    if arg = "" then .error .usage else .ok { r with operands := [arg, symbol] }
  | some (.whole _), [] => if arg = "" then .error .usage else .ok { r with operands := [arg] }
  | _, _ => .error .usage

/-- An argument that is neither an option nor the value of one. Before the command it is the
command. -/
def word (r : Reading) (arg : String) : Except Refusal Reading :=
  if r.command.isSome || r.plain then r.operand arg
  else
    match Command.ofName? arg with
    | some command => .ok { r with command := some command }
    | none => .error .usage

/-- One argument. An option whose value is due takes the argument, unless that is an option. Where
a value is to be refused late, nothing but a command may come before the command. -/
def step (r : Reading) (arg : String) : Except Refusal Reading :=
  if r.plain || r.late && r.command.isNone then r.word arg
  else
    match arg.toList with
    | ['-', '-'] => if r.pending.isSome then .error .usage else .ok { r with plain := true }
    | '-' :: '-' :: name =>
      if r.pending.isSome then .error .usage
      else
        match name.span (· ≠ '=') with
        | (name, []) => r.long (String.ofList name) none
        | (name, _ :: v) => r.long (String.ofList name) (some (String.ofList v))
    | '-' :: c :: cs => if r.pending.isSome then .error .usage else r.letters (c :: cs)
    | _ =>
      match r.pending with
      | some key => r.due key arg
      | none => r.word arg

/-- Whether an argument asks for help in place of a command. -/
def asksHelp (r : Reading) (arg : String) : Bool :=
  arg = "help" && r.command.isNone && r.pending.isNone && !r.plain

/-- What the arguments after `help` come to. There may be one, the command to be explained. -/
def helpOn : List String → Refusal
  | [] => .help
  | [name] => if name = "help" || (Command.ofName? name).isSome then .help else .usage
  | _ => .usage

/-- All arguments. -/
def run (r : Reading) : List String → Except Refusal Reading
  | [] => .ok r
  | arg :: args =>
    if r.asksHelp arg then .error (helpOn args)
    else
      match r.step arg with
      | .ok r => r.run args
      | .error e => .error e

/-- The file that holds the model where none is given. -/
def defaultModel : String := "kconfig.json"

/-- The action and the file of a command with its operands, the latest first. -/
def action? : Command → List String → Option (Action × String)
  | .whole action, [] => some (action, defaultModel)
  | .whole action, [model] => some (action, model)
  | .deps, [symbol] => some (.deps symbol, defaultModel)
  | .deps, [model, symbol] => some (.deps symbol, model)
  | _, _ => none

/-- What is to be run, once all arguments are read. -/
def finish (r : Reading) : Except Refusal Invocation :=
  if r.pending.isSome || r.late || r.outer.isContradictory || r.inner.isContradictory then
    .error .usage
  else
    match r.command.bind (action? · r.operands) with
    | some (action, model) => .ok ⟨action, model, r.outer.merge r.inner⟩
    | none => .error .usage

end Reading

/-- Reads the arguments of a command line. -/
def parse (args : List String) : Except Refusal Invocation :=
  match Reading.run {} args with
  | .ok r => r.finish
  | .error e => .error e

example : parse ["-o", "", "configs"] = .error .usage := rfl

example : parse ["-o", "", "configs", "--help"] = .error .help := rfl

end Kconfig.CommandLine
