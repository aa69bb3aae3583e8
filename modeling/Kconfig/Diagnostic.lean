import Kconfig.Action.Basic
import Kconfig.Expr.Basic
import Kconfig.Settings

/-!
# Messages

Everything that the program says about its work, beside what it writes. A message is a fact; its
level, its text and the part of the program that it comes from follow from the fact.
-/

namespace Kconfig

/-- A message. -/
inductive Diagnostic where
  /-- The settings of the run. -/
  | settings (settings : Settings)
  /-- A model is about to be read from a file. -/
  | loading (path : String)
  /-- A model was read and is sound. -/
  | loaded (symbols : Nat)
  /-- A model was read from the file that was asked for. -/
  | loadedFrom (symbols : Nat) (path : String)
  | running (action : Action)
  | extracting (symbols : Nat)
  /-- A symbol without a type is not declared. -/
  | untypedSkipped (name : String)
  /-- A choice has more than one prompt, of which the first counts. -/
  | promptsIgnored (id : SymbolId)
  /-- A condition holds an ordering comparison, which its dialect cannot say. -/
  | comparisonReplaced (op : Comparison)
  /-- A condition holds a node whose operator is not known. -/
  | unknownReplaced
  | dumping
  /-- A symbol without a type is dumped as an integer. -/
  | untypedDumped (id : SymbolId)
  /-- A dumped expression holds an ordering comparison, which the dump does not show. -/
  | comparisonIgnored (op : Comparison) (context : String)

namespace Diagnostic

/-- How much the message matters. -/
def level : Diagnostic → Level
  | settings _ | loading _ | loaded _ | running _ | extracting _ | untypedSkipped _ | dumping =>
    .debug
  | loadedFrom .. => .info
  | promptsIgnored _ | comparisonReplaced _ | unknownReplaced | untypedDumped _
  | comparisonIgnored .. => .warn

/-- The part of the program that the message comes from. -/
def component : Diagnostic → String
  | settings _ | loadedFrom .. => "kextractor"
  | loading _ | loaded _ => "kclause::model"
  | running _ => "kclause::action"
  | extracting _ | untypedSkipped _ | promptsIgnored _ => "kclause::extract"
  | comparisonReplaced _ | unknownReplaced => "kclause::printer"
  | dumping | untypedDumped _ | comparisonIgnored .. => "kclause::dump"

/-- The settings as a message shows them. -/
def settingsText (s : Settings) : String :=
  "Config \x7b prefix: " ++ Text.quoted s.namePrefix ++ ", reverse_dependencies: " ++
    toString s.reverseDependencies ++ ", verbose: " ++ toString s.verbose ++ ", force_off: [" ++
    ", ".intercalate (s.forceOff.map Text.quoted) ++ "] \x7d"

/-- The text of the message. -/
def message : Diagnostic → String
  | settings s => "config = " ++ settingsText s
  | loading path => "Loading model from " ++ path
  | loaded symbols => "Loaded " ++ toString symbols ++ " symbols"
  | loadedFrom symbols path => "Loaded " ++ toString symbols ++ " symbols from " ++ path
  | running action => "Running " ++ action.label
  | extracting symbols => "Extracting constraints for " ++ toString symbols ++ " symbols"
  | untypedSkipped name => "Skipping untyped symbol " ++ name
  | promptsIgnored id => "Choice " ++ id.label ++ " has multiple prompts, honoring only the first"
  | comparisonReplaced op =>
    "Ordering comparison " ++ op.label ++ " has no boolean form, emitting 1"
  | unknownReplaced => "No rendering rule for unknown expression node, emitting 1"
  | dumping => "Dumping menu tree"
  | untypedDumped id => "Dumping untyped symbol " ++ id.label ++ " as integer"
  | comparisonIgnored op context =>
    "Ignoring " ++ op.label ++ " comparison in " ++ context ++ ", dumping y"

end Diagnostic

end Kconfig
