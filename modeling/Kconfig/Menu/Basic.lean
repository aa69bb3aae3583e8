import Kconfig.Expr.Basic
import Kconfig.Flags

/-!
# The menu tree

Menus form a tree below a root that stands for no menu. A menu may be the place of a symbol, and
the first menu of a choice may list the choice's members.
-/

namespace Kconfig

/-- A node of the menu tree. -/
structure Menu where
  flags : MenuFlags := .none
  /-- The symbol that the menu declares, if it declares one. -/
  symbol : Option SymbolId := none
  /-- The condition under which the menu is shown. -/
  dep : Option Expr := none
  /-- The members of the choice that the menu declares. -/
  choiceMembers : List SymbolId := []
  children : List Menu := []

namespace Menu

/-- Adds a menu after the other children. -/
def withChild (m child : Menu) : Menu :=
  { m with children := m.children ++ [child] }

end Menu

end Kconfig
