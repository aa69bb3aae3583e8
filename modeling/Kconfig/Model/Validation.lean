import Kconfig.Model.Basic
import Kconfig.Error

/-!
# Sound models

A model is sound if every symbol that it refers to is in its table. The check goes through the
model in reading order and reports the first fault: the symbols in table order, then the condition
of the root, then the menus below the root in pre-order.
-/

namespace Kconfig.Model

/-- Checks one id. -/
def checkId (m : Model) (id : SymbolId) : Except Error Unit :=
  if id.position < m.symbols.size then .ok () else .error (.danglingSymbol id m.symbols.size)

/-- Checks an expression from left to right. -/
def checkExpr (m : Model) (e : Expr) : Except Error Unit :=
  e.refs.forM fun
    | .truth _ => .ok ()
    | .entry id => m.checkId id

/-- Checks an expression if there is one. -/
def checkOptional (m : Model) : Option Expr → Except Error Unit
  | none => .ok ()
  | some e => m.checkExpr e

/-- Checks a property: its value, then its condition. -/
def checkProperty (m : Model) (p : Property) : Except Error Unit := do
  m.checkOptional p.expr
  m.checkOptional p.visible

/-- Checks a symbol: its reverse and its direct dependency, then its properties. -/
def checkSymbol (m : Model) (s : Symbol) : Except Error Unit := do
  m.checkOptional s.revDep
  m.checkOptional s.dirDep
  s.properties.forM m.checkProperty

/-- Checks a menu: its symbol, its choice members, then its condition. -/
def checkMenu (m : Model) (menu : Menu) : Except Error Unit := do
  match menu.symbol with
  | none => pure ()
  | some id => m.checkId id
  menu.choiceMembers.forM m.checkId
  m.checkOptional menu.dep

/-- Checks that every symbol that a model refers to is in its table. The root stands for no menu,
so of it only the condition counts. -/
def validate (m : Model) : Except Error Unit := do
  m.symbols.toList.forM m.checkSymbol
  m.checkOptional m.root.dep
  m.menus.forM m.checkMenu

end Kconfig.Model
