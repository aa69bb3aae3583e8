import Kconfig.Constraint.Encoding
import Kconfig.Dump.Tree
import Kconfig.Listing

/-!
# Doing what is asked
-/

namespace Kconfig

/-- What an action writes. -/
def Action.output (m : Model) (settings : Settings) : Action → Run Unit
  | configs => Listing.writeNames ((Listing.configs m).map .write)
  | kconfigs => Listing.writeNames ((Listing.kconfigs m).map .write)
  | menuSymbols => Listing.writeNames (Listing.menuSymbols m)
  | defaults => Listing.writeNames ((Listing.defaults m settings).map .write)
  | extract => Constraint.extract m settings
  | deps name => Listing.writeDeps m settings name
  | dump => Dump.dump m

/-- Does what is asked of a model. -/
def Action.run (action : Action) (m : Model) (settings : Settings) : Run Unit := do
  Run.log (.running action)
  action.output m settings

end Kconfig
