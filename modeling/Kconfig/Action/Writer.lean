import Kconfig.Action.Run
import Kconfig.Dump.Writer
import Kconfig.Listing.Writer

/-!
# Writing what is asked for
-/

namespace Kconfig.Action

/-- Writes what an action asks for. -/
def emitOutput (m : Model) (settings : Settings) : Action → Writer Unit
  | configs => Listing.emitNames (Listing.configs m)
  | kconfigs => Listing.emitNames (Listing.kconfigs m)
  | menuSymbols => Listing.emitMenuSymbols m
  | defaults => Listing.emitNames (Listing.defaults m settings)
  | extract => Constraint.emit m settings
  | deps name => Listing.emitDeps m settings name
  | dump => Dump.emit m

/-- Does what is asked of a model, and writes to a sink. -/
def emit (action : Action) (m : Model) (settings : Settings) : Writer Unit := do
  Writer.log (.running action)
  action.emitOutput m settings

end Kconfig.Action
