import Kconfig.Constraint.Record
import Kconfig.Step

/-!
# Listings

The names of a model's symbols by various criteria, one to a line, and the dependencies of one
symbol.
-/

namespace Kconfig.Listing

/-- The named symbols that satisfy a test, in table order. -/
def namesWhere (m : Model) (test : String → Symbol → Bool) : List String :=
  (m.namedEntries.filter fun (_, name, s) => test name s).map fun (_, name, _) => name

/-- All named symbols. -/
def configs (m : Model) : List String :=
  namesWhere m fun _ _ => true

/-- The named symbols that a configuration file declares. -/
def kconfigs (m : Model) : List String :=
  namesWhere m fun _ s => !(s.propertiesOf .symbol).isEmpty

/-- The named symbols that are on by default, without those that the user leaves out. -/
def defaults (m : Model) (settings : Settings) : List String :=
  namesWhere m fun name s => s.isDefault && !settings.isForcedOff name

/-- The named symbols of menus, in pre-order of the menu tree, each as often as a menu declares
it. -/
def menuSymbols (m : Model) : List (Step String) :=
  m.menus.flatMap fun menu =>
    match menu.symbol with
    | none => []
    | some id =>
      match m.symbol? id with
      | none => [.stop (.outOfTable id)]
      | some s =>
        match s.named with
        | none => []
        | some name => [.write name]

/-- The dependencies of the first symbol of the given name that is no constant. -/
def deps (m : Model) (settings : Settings) (name : String) : List (Step Record) :=
  match m.lookup name with
  | none => [.stop (.error (.unknownSymbol name))]
  | some (_, s) =>
    .write (.dep name s.dirDep) ::
      if settings.reverseDependencies then [.write (.revDep name s.revDep)] else []

/-- Writes names, one to a line. -/
def writeNames (names : List (Step String)) : Run Unit :=
  Step.runAll (fun name => return name ++ "\n") names

/-- Writes the dependencies of a symbol. -/
def writeDeps (m : Model) (settings : Settings) (name : String) : Run Unit :=
  Step.runAll (Record.line ⟨m, settings.namePrefix, .boolean⟩) (deps m settings name)

end Kconfig.Listing
