import Kconfig.Proofs.Menu.Preorder
import Kconfig.Proofs.Model.Altered

/-!
# Models with other expressions

The same may be done to every expression of a model (`Model.mapExprs`): those of the symbols, of
their properties and of the menus. What is not an expression stays as it is. The tree keeps its
shape, so it is walked in the same way (`Menu.walk_events_mapDep`), and where choices have their
members in menus they keep them (`Model.choiceMembers_mapExprs`).

One such alteration puts the leaf `y` for every node whose operator is not known
(`Expr.replaceUnknown`). An expression that has no such node stays as it is.
-/

namespace Kconfig

variable {f : Expr → Expr}

/-! ## Symbols -/

/-- Does the same to the value and to the condition of a property. -/
def Property.mapExprs (f : Expr → Expr) (p : Property) : Property :=
  { p with expr := p.expr.map f, visible := p.visible.map f }

/-- Does the same to every expression of a symbol. -/
def Symbol.mapExprs (f : Expr → Expr) (s : Symbol) : Symbol :=
  { s with
    properties := s.properties.map (Property.mapExprs f)
    revDep := s.revDep.map f
    dirDep := s.dirDep.map f }

/-- The changed properties of a kind are those of the kind, changed. -/
theorem Symbol.propertiesOf_mapExprs (s : Symbol) (kind : PropertyKind) :
    (s.mapExprs f).propertiesOf kind = (s.propertiesOf kind).map (Property.mapExprs f) :=
  List.filter_map

/-! ## Menus -/

namespace Menu

mutual

/-- Does the same to the condition of a menu and to those of all menus below it. -/
def mapDep (f : Expr → Expr) : Menu → Menu
  | ⟨flags, symbol, dep, choiceMembers, children⟩ =>
    ⟨flags, symbol, dep.map f, choiceMembers, mapDeps f children⟩

/-- Does the same to the conditions of menus and to those of all menus below them. -/
def mapDeps (f : Expr → Expr) : List Menu → List Menu
  | [] => []
  | menu :: rest => mapDep f menu :: mapDeps f rest

end

/-- The children of a changed menu are the changed children. -/
theorem children_mapDep (menu : Menu) : (menu.mapDep f).children = mapDeps f menu.children := by
  cases menu
  rfl

/-- Changing menus makes none and takes none away. -/
theorem isEmpty_mapDeps (menus : List Menu) : (mapDeps f menus).isEmpty = menus.isEmpty := by
  cases menus <;> rfl

/-- Nothing but the condition of a menu, and what is below it, is different. -/
theorem mapDep_eq (menu : Menu) :
    menu.mapDep f =
      { menu with dep := menu.dep.map f, children := mapDeps f menu.children } := by
  cases menu
  rfl

end Menu

namespace WalkEvent

/-- The event with something done to the menu that is visited. -/
def map (g : Menu → Menu) : WalkEvent → WalkEvent
  | visit menu => visit (g menu)
  | descend => descend
  | ascend => ascend

/-- The menu of a changed event is the changed menu. -/
theorem menu?_map (g : Menu → Menu) (e : WalkEvent) : (e.map g).menu? = e.menu?.map g := by
  cases e <;> rfl

mutual

/-- The walk through a changed menu is the changed walk, event by event. -/
theorem ofMenu_mapDep : ∀ menu : Menu,
    ofMenu (menu.mapDep f) = (ofMenu menu).map (map (Menu.mapDep f))
  | ⟨flags, symbol, dep, choiceMembers, children⟩ => by
    have hchildren := ofMenus_mapDeps children
    rw [ofMenu_eq, ofMenu_eq, List.map_cons, Menu.children_mapDep, hchildren, enter, enter,
      Menu.isEmpty_mapDeps]
    split
    · rfl
    · simp only [List.cons_append, List.map_cons, List.map_append]
      rfl

/-- A tree is walked as the tree with other conditions is. -/
theorem ofMenus_mapDeps : ∀ menus : List Menu,
    ofMenus (Menu.mapDeps f menus) = (ofMenus menus).map (map (Menu.mapDep f))
  | [] => rfl
  | menu :: rest => by
    rw [Menu.mapDeps, ofMenus, ofMenus, List.map_append, ofMenu_mapDep menu, ofMenus_mapDeps rest]

end

end WalkEvent

namespace Menu

/-- The events of the walk through a changed tree are the changed events. -/
theorem walk_events_mapDep (menu : Menu) :
    (menu.mapDep f).walk.events = menu.walk.events.map (WalkEvent.map (mapDep f)) := by
  rw [walk_events, walk_events, children_mapDep, WalkEvent.ofMenus_mapDeps, List.map_append]
  rfl

/-- The descendants in a changed tree are the changed descendants. -/
theorem descendants_mapDep (menu : Menu) :
    (menu.mapDep f).descendants = menu.descendants.map (mapDep f) := by
  have hvisited : ∀ m : Menu, m.descendants = m.walk.events.filterMap WalkEvent.menu? :=
    fun _ => rfl
  have hmenu : WalkEvent.menu? ∘ WalkEvent.map (mapDep f) = fun e => e.menu?.map (mapDep f) :=
    funext (WalkEvent.menu?_map (mapDep f))
  rw [hvisited, hvisited, walk_events_mapDep, List.filterMap_map, List.map_filterMap, hmenu]

end Menu

/-! ## Models -/

namespace Model

variable {m : Model}

/-- The model with the same done to every expression. -/
def mapExprs (f : Expr → Expr) (m : Model) : Model :=
  { m.mapSymbols (Symbol.mapExprs f) with root := m.root.mapDep f }

/-- An id leads to the changed symbol. -/
theorem symbol?_mapExprs (id : SymbolId) :
    (m.mapExprs f).symbol? id = (m.symbol? id).map (Symbol.mapExprs f) :=
  symbol?_mapSymbols id

/-- The first menu of a symbol is the changed one. -/
theorem firstMenu_mapExprs (id : SymbolId) :
    (m.mapExprs f).firstMenu id = (m.firstMenu id).map (Menu.mapDep f) := by
  have hsymbol : ∀ menu : Menu, (menu.mapDep f).symbol = menu.symbol := by
    intro menu
    rw [Menu.mapDep_eq]
  have hmenus : (m.mapExprs f).menus = m.menus.map (Menu.mapDep f) :=
    Menu.descendants_mapDep m.root
  unfold firstMenu
  rw [hmenus, List.find?_map]
  congr 2
  funext menu
  rw [Function.comp_apply, hsymbol]

/-- Lists of members in menus are no expressions. -/
theorem choiceMembers_mapExprs (h : m.capabilities.choiceMembers = .menu) (id : SymbolId)
    (s : Symbol) : (m.mapExprs f).choiceMembers id (s.mapExprs f) = m.choiceMembers id s := by
  have hshape : (m.mapExprs f).capabilities.choiceMembers = .menu := h
  simp only [choiceMembers, hshape, h, firstMenu_mapExprs]
  rcases m.firstMenu id with _ | menu
  · rfl
  · rw [Option.map_some, Menu.mapDep_eq]

end Model

/-! ## Nodes that are not known -/

namespace Expr

/-- Whether the operator of some node is not known. -/
def hasUnknown : Expr → Bool
  | unknown => true
  | not e => e.hasUnknown
  | and l r => l.hasUnknown || r.hasUnknown
  | or l r => l.hasUnknown || r.hasUnknown
  | listCons _ tail => tail.hasUnknown
  | symbol _ | compare _ _ _ | listLast _ | range _ _ => false

/-- The expression with the leaf `y` for every node whose operator is not known. -/
def replaceUnknown : Expr → Expr
  | unknown => yes
  | not e => not e.replaceUnknown
  | and l r => and l.replaceUnknown r.replaceUnknown
  | or l r => or l.replaceUnknown r.replaceUnknown
  | listCons a tail => listCons a tail.replaceUnknown
  | symbol s => symbol s
  | compare op l r => compare op l r
  | listLast a => listLast a
  | range low high => range low high

/-- An expression of known nodes has nothing to replace. -/
theorem replaceUnknown_eq_self {e : Expr} (h : ¬ e.hasUnknown) : e.replaceUnknown = e := by
  induction e with
  | symbol | compare | listLast | range => rfl
  | not e ih => exact congrArg not (ih h)
  | and l r ihl ihr | or l r ihl ihr =>
    simp only [hasUnknown, Bool.or_eq_true, not_or] at h
    simp only [replaceUnknown, ihl h.1, ihr h.2]
  | listCons a tail ih => exact congrArg (listCons a) (ih h)
  | unknown => exact absurd rfl h

end Expr

/-- The model with the leaf `y` for every node whose operator is not known. -/
def Model.replaceUnknown (m : Model) : Model :=
  m.mapExprs Expr.replaceUnknown

end Kconfig
