import Kconfig.Text.Quoted

/-!
# What can be asked of a model
-/

namespace Kconfig

/-- What to write for a model. -/
inductive Action where
  /-- Every named symbol. -/
  | configs
  /-- The named symbols that a configuration file declares. -/
  | kconfigs
  /-- The named symbols of menus. -/
  | menuSymbols
  /-- The named symbols that are on by default and out of the user's hands. -/
  | defaults
  /-- All constraints. -/
  | extract
  /-- The dependencies of one symbol. -/
  | deps (name : String)
  /-- The menu tree with everything in it. -/
  | dump
deriving DecidableEq

/-- The name by which messages call an action. -/
def Action.label : Action → String
  | configs => "Configs"
  | kconfigs => "Kconfigs"
  | menuSymbols => "MenuSymbols"
  | defaults => "Defaults"
  | extract => "Extract"
  | deps name => "Deps(" ++ Text.quoted name ++ ")"
  | dump => "Dump"

end Kconfig
