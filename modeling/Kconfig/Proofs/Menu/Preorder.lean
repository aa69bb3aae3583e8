import Kconfig.Menu.Walk

/-!
# The order of the walk

The walk keeps a stack of its own, so its events are not read off the tree at once. They are those
of a plain recursion on the tree: a menu, then the events of its children between an entry and an
exit, then the menus after it (`MenuWalk.events_level`). So the descendants of a menu are what is
below it in pre-order (`Menu.descendants_eq_preorder`): every menu that is below it at any depth,
and no other (`Menu.mem_descendants_iff`).
-/

namespace Kconfig

/-! ## Recursion on the tree -/

namespace Menu

mutual

/-- A menu and all that is below it, each menu before its children. -/
def withDescendants : Menu → List Menu
  | ⟨flags, symbol, dep, choiceMembers, children⟩ =>
    ⟨flags, symbol, dep, choiceMembers, children⟩ :: preorder children

/-- Menus and all that is below them. -/
def preorder : List Menu → List Menu
  | [] => []
  | menu :: rest => menu.withDescendants ++ preorder rest

end

end Menu

namespace WalkEvent

/-- The events between the entry to a list of children and the exit. A list that is empty is not
entered. -/
def enter (children : List Menu) (inner : List WalkEvent) : List WalkEvent :=
  if children.isEmpty then [] else descend :: inner ++ [ascend]

mutual

/-- The events of a walk through a menu and all that is below it. -/
def ofMenu : Menu → List WalkEvent
  | ⟨flags, symbol, dep, choiceMembers, children⟩ =>
    visit ⟨flags, symbol, dep, choiceMembers, children⟩ :: enter children (ofMenus children)

/-- The events of a walk through menus, without the exit from their list. -/
def ofMenus : List Menu → List WalkEvent
  | [] => []
  | menu :: rest => ofMenu menu ++ ofMenus rest

end

/-- The walk visits a menu, then enters its children. -/
theorem ofMenu_eq (menu : Menu) :
    ofMenu menu = visit menu :: enter menu.children (ofMenus menu.children) := by
  cases menu
  rfl

/-- The menu that is visited, if one is. -/
def menu? : WalkEvent → Option Menu
  | visit menu => some menu
  | descend | ascend => none

/-- A visit hands out its menu. -/
theorem filterMap_visit (menu : Menu) (events : List WalkEvent) :
    (visit menu :: events).filterMap menu? = menu :: events.filterMap menu? := rfl

/-- Entering children hands out what is handed out among them, and nothing if there are none. -/
theorem filterMap_enter (children : List Menu) (inner : List WalkEvent) :
    (enter children inner).filterMap menu? =
      if children.isEmpty then [] else inner.filterMap menu? := by
  unfold enter
  split
  · rfl
  · rw [List.cons_append, List.filterMap_cons_none rfl, List.filterMap_append]
    exact List.append_nil _

mutual

/-- The walk through a menu hands out the menu and its descendants. -/
theorem filterMap_ofMenu : ∀ menu : Menu, (ofMenu menu).filterMap menu? = menu.withDescendants
  | ⟨flags, symbol, dep, choiceMembers, children⟩ => by
    rw [ofMenu, Menu.withDescendants, filterMap_visit, filterMap_enter,
      filterMap_ofMenus children]
    cases children <;> rfl

/-- The menus visited are those of the tree, in pre-order. -/
theorem filterMap_ofMenus : ∀ menus : List Menu,
    (ofMenus menus).filterMap menu? = Menu.preorder menus
  | [] => rfl
  | menu :: rest => by
    rw [ofMenus, Menu.preorder, List.filterMap_append, filterMap_ofMenu menu,
      filterMap_ofMenus rest]

end

end WalkEvent

/-! ## The walk with a stack -/

namespace MenuWalk

mutual

/-- A walk through a menu and then through what is left. -/
theorem events_menu : ∀ (menu : Menu) (rest : List Menu) (levels : List (List Menu)),
    (⟨(menu :: rest) :: levels, none⟩ : MenuWalk).events =
      WalkEvent.ofMenu menu ++ (⟨rest :: levels, none⟩ : MenuWalk).events
  | ⟨flags, symbol, dep, choiceMembers, []⟩, rest, levels => events_of_next_eq_some rfl
  | ⟨flags, symbol, dep, choiceMembers, child :: children⟩, rest, levels => by
    have hvisit := events_of_next_eq_some (w := ⟨(⟨flags, symbol, dep, choiceMembers,
      child :: children⟩ :: rest) :: levels, none⟩) rfl
    have hdescend := events_of_next_eq_some (w := ⟨rest :: levels, some ⟨flags, symbol, dep,
      choiceMembers, child :: children⟩⟩) rfl
    have hchildren := events_level (child :: children) (rest :: levels)
    rw [hvisit, WalkEvent.ofMenu_eq]
    simp only [WalkEvent.enter, List.isEmpty_cons, Bool.false_eq_true, if_false]
    rw [hdescend, hchildren]
    simp

/-- A walk through a level and then through what is around it. -/
theorem events_level : ∀ (level : List Menu) (levels : List (List Menu)),
    (⟨level :: levels, none⟩ : MenuWalk).events =
      WalkEvent.ofMenus level ++ .ascend :: (⟨levels, none⟩ : MenuWalk).events
  | [], levels => events_of_next_eq_some rfl
  | menu :: rest, levels => by
    rw [events_menu menu rest levels, events_level rest levels, WalkEvent.ofMenus,
      List.append_assoc]

end

end MenuWalk

namespace Menu

/-- The events of the whole walk below a menu. -/
theorem walk_events (m : Menu) : m.walk.events = WalkEvent.ofMenus m.children ++ [.ascend] := by
  have hover : (⟨[], none⟩ : MenuWalk).events = [] := MenuWalk.events_of_next_eq_none rfl
  rw [walk, MenuWalk.events_level, hover]

/-- The descendants of a menu are what is below it, in pre-order. -/
theorem descendants_eq_preorder (m : Menu) : m.descendants = preorder m.children := by
  have hvisited : m.descendants = m.walk.events.filterMap WalkEvent.menu? := rfl
  rw [hvisited, walk_events, List.filterMap_append, WalkEvent.filterMap_ofMenus]
  exact List.append_nil _

/-! ## What is below a menu -/

/-- Whether a menu is below another, at any depth. -/
inductive IsBelow (menu : Menu) : Menu → Prop where
  | child {top : Menu} : menu ∈ top.children → IsBelow menu top
  | deeper {top child : Menu} : child ∈ top.children → IsBelow menu child → IsBelow menu top

/-- What is below a menu is one of its children or below one. -/
theorem isBelow_iff {menu top : Menu} :
    menu.IsBelow top ↔ ∃ child ∈ top.children, menu = child ∨ menu.IsBelow child := by
  constructor
  · intro h
    cases h with
    | child hchild => exact ⟨menu, hchild, .inl rfl⟩
    | deeper hchild hbelow => exact ⟨_, hchild, .inr hbelow⟩
  · rintro ⟨child, hchild, rfl | hbelow⟩
    · exact .child hchild
    · exact .deeper hchild hbelow

mutual

/-- The nodes of a menu are the menu and all that is below it. -/
theorem mem_withDescendants_iff {menu : Menu} :
    ∀ top : Menu, menu ∈ top.withDescendants ↔ menu = top ∨ menu.IsBelow top
  | ⟨flags, symbol, dep, choiceMembers, children⟩ => by
    rw [withDescendants, List.mem_cons, mem_preorder_iff children, isBelow_iff]

/-- The pre-order of menus has these and all that is below them. -/
theorem mem_preorder_iff {menu : Menu} :
    ∀ menus : List Menu, menu ∈ preorder menus ↔ ∃ top ∈ menus, menu = top ∨ menu.IsBelow top
  | [] => iff_of_false List.not_mem_nil (by simp)
  | top :: rest => by
    rw [preorder, List.mem_append, mem_withDescendants_iff top, mem_preorder_iff rest]
    simp only [List.mem_cons, exists_eq_or_imp]

end

/-- The walk through the descendants of a menu comes to every menu below it and to no other. -/
theorem mem_descendants_iff {menu m : Menu} : menu ∈ m.descendants ↔ menu.IsBelow m := by
  rw [descendants_eq_preorder, mem_preorder_iff, isBelow_iff]

end Menu

end Kconfig
