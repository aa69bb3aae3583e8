import Kconfig.Dump.Tree
import Kconfig.Model.Lookup
import Kconfig.Writer

/-!
# Writing the dump

The dump as it goes to a sink, piece by piece. The text of a piece is complete before any of it is
written.
-/

namespace Kconfig.Dump

/-- Writes a piece. -/
def Piece.emit (m : Model) (piece : Piece) : Writer Unit := do
  let text ← piece.render m
  Writer.write text

/-- Writes a property. -/
def emitProperty (m : Model) (p : Property) : Writer Unit := do
  Piece.emit m (.openProperty p.kind)
  p.text.forM fun text => Piece.emit m (.text text)
  p.expr.forM fun e => Piece.emit m (.value p.kind.dumpName e)
  p.visible.forM fun e => Piece.emit m (.visible p.kind.dumpName e)
  Piece.emit m .closeProperty

/-- Writes the property that stands for a list of choice members. -/
def emitMembers (m : Model) (id : SymbolId) (s : Symbol) : Writer Unit := do
  Piece.emit m (.members (m.choiceMembers id s))
  ((s.propertiesOf .symbol).getLast?.bind Property.visible).forM fun e =>
    Piece.emit m (.visible "choice visibility" e)
  Piece.emit m .closeProperty

/-- Writes a symbol of the table. -/
def emitSymbol (m : Model) (id : SymbolId) : Writer Unit := do
  let s ← m.find id
  if s.isChoice && !s.kind.isBoolean then Writer.fail (.invalidChoiceType id s.kind)
  else
    Writer.when (s.kind = .unknown) (Writer.log (.untypedDumped id))
    Piece.emit m (.openSymbol s.kind s.flags id)
    s.name.forM fun name => Piece.emit m (.name name)
    s.properties.forM (emitProperty m)
    Writer.when (s.isChoice && m.capabilities.choiceMembers = .menu) (emitMembers m id s)
    Piece.emit m .closeSymbol

/-- Writes a menu without its children. -/
def emitMenu (m : Model) (menu : Menu) : Writer Unit := do
  Piece.emit m (.openMenu menu.flags)
  menu.symbol.forM (emitSymbol m)
  menu.dep.forM fun e => Piece.emit m (.dep e)
  Piece.emit m .closeMenu

/-- Writes what there is to an event of the walk through the menu tree. -/
def emitEvent (m : Model) : WalkEvent → Writer Unit
  | .visit menu => emitMenu m menu
  | .descend => Piece.emit m .openSubmenu
  | .ascend => Piece.emit m .closeSubmenu

/-- Writes the dump of a model. -/
def emit (m : Model) : Writer Unit := do
  Writer.log .dumping
  Piece.emit m .openSubmenu
  m.root.walk.events.forM (emitEvent m)

end Kconfig.Dump
