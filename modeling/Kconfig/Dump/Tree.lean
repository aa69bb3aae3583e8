import Kconfig.Dump.Piece
import Kconfig.Step

/-!
# The dump of a model

The dump shows the menu tree below the root, each menu with its symbol, all its properties and its
condition. The children of a menu follow it in a block of their own. Where choices list their
members in menus, the dump shows the list as the property that other models have.
-/

namespace Kconfig.Dump

/-- The pieces of a value that may be absent. -/
def optionalPiece {α : Type} (piece : α → Piece) : Option α → List (Step Piece)
  | some a => [.write (piece a)]
  | none => []

/-- A property. -/
def propertySteps (p : Property) : List (Step Piece) :=
  [.write (.openProperty p.kind)] ++ optionalPiece .text p.text ++
    optionalPiece (.value p.kind.dumpName) p.expr ++
    optionalPiece (.visible p.kind.dumpName) p.visible ++ [.write .closeProperty]

/-- The property that stands for a list of choice members. It applies where the choice is
declared, by the last declaration. -/
def membersSteps (m : Model) (id : SymbolId) (s : Symbol) : List (Step Piece) :=
  [.write (.members (m.choiceMembers id s))] ++
    optionalPiece (.visible "choice visibility")
      ((s.propertiesOf .symbol).getLast?.bind Property.visible) ++
    [.write .closeProperty]

/-- A symbol of the table. -/
def symbolSteps (m : Model) (id : SymbolId) (s : Symbol) : List (Step Piece) :=
  if s.isChoice && !s.kind.isBoolean then [.stop (.error (.invalidChoiceType id s.kind))]
  else
    (if s.kind = .unknown then [.note (.untypedDumped id)] else []) ++
      [.write (.openSymbol s.kind s.flags id)] ++ optionalPiece .name s.name ++
      s.properties.flatMap propertySteps ++
      (if s.isChoice && m.capabilities.choiceMembers = .menu then membersSteps m id s else []) ++
      [.write .closeSymbol]

/-- A menu without its children. -/
def menuSteps (m : Model) (menu : Menu) : List (Step Piece) :=
  [.write (.openMenu menu.flags)] ++
    (match menu.symbol with
      | none => []
      | some id =>
        match m.symbol? id with
        | some s => symbolSteps m id s
        | none => [.stop (.outOfTable id)]) ++
    optionalPiece .dep menu.dep ++ [.write .closeMenu]

/-- An event of the walk through the menu tree. -/
def eventSteps (m : Model) : WalkEvent → List (Step Piece)
  | .visit menu => menuSteps m menu
  | .descend => [.write .openSubmenu]
  | .ascend => [.write .closeSubmenu]

/-- The whole dump. -/
def steps (m : Model) : List (Step Piece) :=
  .note .dumping :: .write .openSubmenu :: m.root.walk.events.flatMap (eventSteps m)

/-- Writes the dump of a model. -/
def dump (m : Model) : Run Unit :=
  Step.runAll (Piece.render m) (steps m)

end Kconfig.Dump
