import Kconfig.Proofs.Menu.Preorder
import Kconfig.Proofs.Model.Soundness
import Mathlib.Data.List.Basic

/-!
# The first fault of a model

The check of a model is nested: symbols, their properties, the expressions of these, then the walk
through the menus. Seen from outside it is one pass. The ids of a model stand in one sequence, in
the order in which a reader comes to them (`Model.ids`), and what the check reports is the first of
them that leads out of the table (`Model.validate_eq_error_iff`).

The sequence is said by recursion on expressions and on the menu tree, without the traversals that
the check makes use of. Each part of the check is shown to go through the ids of its part
(`Model.checkSymbol_eq`, `Model.checkMenu_eq`), and since checks are put together as sequences are,
nothing is to be known about errors until all of it is one sequence.
-/

namespace Kconfig

/-! ## Ids in reading order -/

/-- The ids in an expression, from left to right, as often as they stand there. -/
def Expr.ids : Expr → List SymbolId
  | symbol s => s.entry?.toList
  | not e => e.ids
  | compare _ l r => l.entry?.toList ++ r.entry?.toList
  | and l r | or l r => l.ids ++ r.ids
  | listLast a => a.entry?.toList
  | listCons a rest => a.entry?.toList ++ rest.ids
  | range low high => low.entry?.toList ++ high.entry?.toList
  | unknown => []

/-- The ids in an expression that may be absent. -/
def Expr.optionalIds (e : Option Expr) : List SymbolId :=
  e.toList.flatMap Expr.ids

/-- The ids in a property: those of its value, then those of its condition. -/
def Property.ids (p : Property) : List SymbolId :=
  Expr.optionalIds p.expr ++ Expr.optionalIds p.visible

/-- The ids in a symbol: those of its reverse and of its direct dependency, then those of its
properties in turn. -/
def Symbol.ids (s : Symbol) : List SymbolId :=
  Expr.optionalIds s.revDep ++ Expr.optionalIds s.dirDep ++ s.properties.flatMap Property.ids

/-- The ids in a menu, those of its children left aside: its symbol, its choice members, then those
of its condition. -/
def Menu.ownIds (menu : Menu) : List SymbolId :=
  menu.symbol.toList ++ menu.choiceMembers ++ Expr.optionalIds menu.dep

/-- The ids in a model: those of the symbols in table order, those of the root's condition, then
those of the menus below the root, each menu before its children. -/
def Model.ids (m : Model) : List SymbolId :=
  m.symbols.toList.flatMap Symbol.ids ++ Expr.optionalIds m.root.dep ++
    (Menu.preorder m.root.children).flatMap Menu.ownIds

/-- The references of an expression that are ids. -/
theorem Expr.filterMap_entry?_refs (e : Expr) : e.refs.filterMap SymbolRef.entry? = e.ids := by
  induction e with
  | symbol s => cases s <;> rfl
  | not e ih => exact ih
  | compare op l r => cases l <;> cases r <;> rfl
  | and l r ihl ihr => rw [refs_and, List.filterMap_append, ihl, ihr, ids]
  | or l r ihl ihr => rw [refs_or, List.filterMap_append, ihl, ihr, ids]
  | listLast a => cases a <;> rfl
  | listCons a rest ih =>
    rw [refs_listCons, ids, ← ih]
    cases a <;> rfl
  | range low high => cases low <;> cases high <;> rfl
  | unknown => rfl

namespace Model

variable {m : Model}

/-! ## Checks as passes over ids -/

/-- Ids in a row are checked one part after the other. -/
theorem forM_checkId_append (m : Model) (before after : List SymbolId) :
    (before ++ after).forM m.checkId = (do before.forM m.checkId; after.forM m.checkId) :=
  List.forM_append

/-- A list of one id is checked as the id. -/
theorem forM_checkId_singleton (m : Model) (id : SymbolId) :
    [id].forM m.checkId = m.checkId id :=
  bind_pure_unit

/-- A check of many parts, each of which is a pass over ids, is a pass over all of these. -/
theorem forM_eq_forM_checkId {α : Type} {check : α → Except Error Unit} {ids : α → List SymbolId}
    (h : ∀ a, check a = (ids a).forM m.checkId) (as : List α) :
    as.forM check = (as.flatMap ids).forM m.checkId := by
  induction as with
  | nil => rfl
  | cons a as ih =>
    rw [check_forM_cons, h, ih, List.flatMap_cons, forM_checkId_append]

/-- The check of an expression is the check of its ids. -/
theorem checkExpr_eq (m : Model) (e : Expr) : m.checkExpr e = e.ids.forM m.checkId := by
  rw [← Expr.filterMap_entry?_refs, List.filterMap_eq_flatMap_toList]
  apply forM_eq_forM_checkId
  intro sym
  cases sym with
  | truth t => rfl
  | entry id => exact (m.forM_checkId_singleton id).symm

/-- The check of an expression that may be absent is the check of its ids, if there are any. -/
theorem checkOptional_eq (m : Model) (e : Option Expr) :
    m.checkOptional e = (Expr.optionalIds e).forM m.checkId := by
  rcases e with _ | e
  · rfl
  · rw [Expr.optionalIds, Option.toList_some, List.flatMap_singleton]
    exact m.checkExpr_eq e

/-- The check of a property is the check of its ids. -/
theorem checkProperty_eq (m : Model) (p : Property) :
    m.checkProperty p = p.ids.forM m.checkId := by
  rw [checkProperty, Property.ids, forM_checkId_append, checkOptional_eq, checkOptional_eq]

/-- The check of a symbol is the check of its ids. -/
theorem checkSymbol_eq (m : Model) (s : Symbol) : m.checkSymbol s = s.ids.forM m.checkId := by
  rw [checkSymbol, Symbol.ids, checkOptional_eq, checkOptional_eq,
    forM_eq_forM_checkId m.checkProperty_eq]
  simp only [forM_checkId_append, bind_assoc]

/-- The check of a menu is the check of its own ids. -/
theorem checkMenu_eq (m : Model) (menu : Menu) :
    m.checkMenu menu = menu.ownIds.forM m.checkId := by
  have hparts : menu.ownIds.forM m.checkId = (do
      menu.symbol.toList.forM m.checkId
      menu.choiceMembers.forM m.checkId
      m.checkOptional menu.dep) := by
    rw [Menu.ownIds, checkOptional_eq]
    simp only [forM_checkId_append, bind_assoc]
  rw [hparts, checkMenu]
  rcases menu.symbol with _ | id
  · rfl
  · rw [Option.toList_some, forM_checkId_singleton]

/-- The whole check is one pass over the ids of the model. -/
theorem validate_eq (m : Model) : m.validate = m.ids.forM m.checkId := by
  rw [validate, ids, menus, Menu.descendants_eq_preorder, checkOptional_eq,
    forM_eq_forM_checkId m.checkSymbol_eq, forM_eq_forM_checkId m.checkMenu_eq]
  simp only [forM_checkId_append, bind_assoc]

/-! ## The first of them -/

/-- A pass ends at the first id that leads out of the table. -/
theorem forM_checkId_eq (m : Model) (ids : List SymbolId) :
    ids.forM m.checkId =
      match ids.find? fun id => m.symbols.size ≤ id.position with
      | none => .ok ()
      | some id => .error (.danglingSymbol id m.symbols.size) := by
  induction ids with
  | nil => rfl
  | cons id ids ih =>
    rw [check_forM_cons, List.find?_cons]
    by_cases hid : id.position < m.symbols.size
    · have hcheck : m.checkId id = .ok () := if_pos hid
      rw [hcheck, decide_eq_false (Nat.not_le.mpr hid)]
      exact ih
    · have hcheck : m.checkId id = .error (.danglingSymbol id m.symbols.size) := if_neg hid
      rw [hcheck, decide_eq_true (Nat.not_lt.mp hid)]
      rfl

/-- The check of a model fails exactly if an id in it leads out of the table, and the error names
the first such id in reading order and the size of the table. -/
theorem validate_eq_error_iff (m : Model) (e : Error) :
    m.validate = .error e ↔
      ∃ before id after, m.ids = before ++ id :: after ∧
        (∀ earlier ∈ before, earlier.position < m.symbols.size) ∧
          m.symbols.size ≤ id.position ∧ e = .danglingSymbol id m.symbols.size := by
  rw [validate_eq, forM_checkId_eq]
  constructor
  · intro h
    rcases hfind : m.ids.find? (fun id => m.symbols.size ≤ id.position) with _ | id
    · rw [hfind] at h
      cases h
    · rw [hfind] at h
      obtain ⟨hid, before, after, hids, hbefore⟩ := List.find?_eq_some_iff_append.mp hfind
      refine ⟨before, id, after, hids, ?_, of_decide_eq_true hid, (Except.error.inj h).symm⟩
      intro earlier hearlier
      simpa using hbefore earlier hearlier
  · rintro ⟨before, id, after, hids, hbefore, hid, rfl⟩
    have hfind : m.ids.find? (fun id => m.symbols.size ≤ id.position) = some id := by
      rw [List.find?_eq_some_iff_append]
      refine ⟨decide_eq_true hid, before, after, hids, ?_⟩
      intro earlier hearlier
      simpa using hbefore earlier hearlier
    rw [hfind]

end Model

end Kconfig
