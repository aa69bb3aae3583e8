import Kconfig.Model.Basic
import Kconfig.Run

/-!
# Looking symbols up in a run

An id outside the table ends the run. Models that were read are sound and have no such id where it
is looked up; models that were put together by hand may.
-/

namespace Kconfig

/-- The symbol of the given id. -/
def Model.find (m : Model) (id : SymbolId) : Run Symbol :=
  match m.symbol? id with
  | some s => pure s
  | none => Run.stop (.outOfTable id)

end Kconfig
