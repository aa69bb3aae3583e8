import Kconfig.Listing
import Kconfig.Constraint.Writer

/-!
# Writing the listings
-/

namespace Kconfig.Listing

/-- Writes a name on a line of its own. -/
def emitName (name : String) : Writer Unit :=
  Writer.write (name ++ "\n")

/-- Writes names, one to a line. -/
def emitNames (names : List String) : Writer Unit :=
  names.forM emitName

/-- Writes the names of the symbols of menus. A symbol is looked up when its turn comes. -/
def emitMenuSymbols (m : Model) : Writer Unit :=
  m.menus.forM fun menu =>
    menu.symbol.forM fun id => do
      let s ← m.find id
      s.named.forM emitName

/-- Writes the dependencies of a symbol. -/
def emitDeps (m : Model) (settings : Settings) (name : String) : Writer Unit := do
  let p : Printer := ⟨m, settings.namePrefix, .boolean⟩
  match m.lookup name with
  | none => Writer.fail (.unknownSymbol name)
  | some (_, s) =>
    Record.emit p (.dep name s.dirDep)
    Writer.when settings.reverseDependencies (Record.emit p (.revDep name s.revDep))

end Kconfig.Listing
