import Kconfig.Proofs.Menu.Preorder
import Kconfig.Proofs.Model.Soundness

/-!
# Closed models

A model is closed if every id that occurs in it, anywhere, is a position of its table
(`Model.IsClosed`). Where ids occur is said without the traversals that look for them: in a node of
an expression (`Expr.Mentions`), of any expression of a symbol or of a menu, and in a menu of the
tree, the root included (`Model.Refers`).

The check of a model passes the closed models, and some more: it goes through the menus below the
root, and of the root it only looks at the condition. So what it passes are exactly the models that
are closed once the root is neither the place of a symbol nor that of a choice
(`Model.validate_eq_ok_iff_isClosed`). A root that is leads out of the table unnoticed
(`Model.strayRoot_passes`).
-/

namespace Kconfig

/-! ## References in expressions -/

namespace Expr

/-- Whether a reference stands in an expression, at any depth and in a node of any kind. -/
inductive Mentions (sym : SymbolRef) : Expr → Prop where
  | symbol : Mentions sym (.symbol sym)
  | not {e : Expr} : Mentions sym e → Mentions sym (.not e)
  | compareLeft {op : Comparison} {r : SymbolRef} : Mentions sym (.compare op sym r)
  | compareRight {op : Comparison} {l : SymbolRef} : Mentions sym (.compare op l sym)
  | andLeft {l r : Expr} : Mentions sym l → Mentions sym (.and l r)
  | andRight {l r : Expr} : Mentions sym r → Mentions sym (.and l r)
  | orLeft {l r : Expr} : Mentions sym l → Mentions sym (.or l r)
  | orRight {l r : Expr} : Mentions sym r → Mentions sym (.or l r)
  | listLast : Mentions sym (.listLast sym)
  | listMember {rest : Expr} : Mentions sym (.listCons sym rest)
  | listRest {member : SymbolRef} {rest : Expr} :
    Mentions sym rest → Mentions sym (.listCons member rest)
  | rangeLow {high : SymbolRef} : Mentions sym (.range sym high)
  | rangeHigh {low : SymbolRef} : Mentions sym (.range low sym)

variable {sym : SymbolRef}

/-- An expression mentions only what it refers to. -/
theorem Mentions.mem_refs {e : Expr} (h : e.Mentions sym) : sym ∈ e.refs := by
  induction h with
  | symbol | compareLeft | compareRight | listLast | listMember | rangeLow | rangeHigh => simp
  | not _ ih | andLeft _ ih | andRight _ ih | orLeft _ ih | orRight _ ih | listRest _ ih =>
    simp [ih]

/-- The references that are reported of an expression are those that stand in it. -/
theorem mem_refs_iff {e : Expr} : sym ∈ e.refs ↔ e.Mentions sym := by
  refine ⟨?_, Mentions.mem_refs⟩
  intro h
  induction e with
  | symbol s =>
    obtain rfl := List.mem_singleton.mp h
    exact .symbol
  | not e ih => exact .not (ih h)
  | compare op l r =>
    rw [refs_compare, List.mem_cons, List.mem_singleton] at h
    rcases h with rfl | rfl
    · exact .compareLeft
    · exact .compareRight
  | and l r ihl ihr =>
    rw [refs_and, List.mem_append] at h
    rcases h with h | h
    · exact .andLeft (ihl h)
    · exact .andRight (ihr h)
  | or l r ihl ihr =>
    rw [refs_or, List.mem_append] at h
    rcases h with h | h
    · exact .orLeft (ihl h)
    · exact .orRight (ihr h)
  | listLast a =>
    obtain rfl := List.mem_singleton.mp h
    exact .listLast
  | listCons a rest ih =>
    rw [refs_listCons, List.mem_cons] at h
    rcases h with rfl | h
    · exact .listMember
    · exact .listRest (ih h)
  | range low high =>
    rw [refs_range, List.mem_cons, List.mem_singleton] at h
    rcases h with rfl | rfl
    · exact .rangeLow
    · exact .rangeHigh
  | unknown => cases h

end Expr

namespace Model

/-! ## Ids in models -/

/-- Whether a menu is in the tree of a model, the root included. -/
def HasMenu (m : Model) (menu : Menu) : Prop :=
  menu = m.root ∨ menu.IsBelow m.root

/-- Whether an id occurs in a model. -/
inductive Refers (m : Model) (id : SymbolId) : Prop where
  | revDep {s : Symbol} {e : Expr} :
    s ∈ m.symbols → s.revDep = some e → e.Mentions (.entry id) → Refers m id
  | dirDep {s : Symbol} {e : Expr} :
    s ∈ m.symbols → s.dirDep = some e → e.Mentions (.entry id) → Refers m id
  | value {s : Symbol} {p : Property} {e : Expr} :
    s ∈ m.symbols → p ∈ s.properties → p.expr = some e → e.Mentions (.entry id) → Refers m id
  | visible {s : Symbol} {p : Property} {e : Expr} :
    s ∈ m.symbols → p ∈ s.properties → p.visible = some e → e.Mentions (.entry id) → Refers m id
  | menuSymbol {menu : Menu} : m.HasMenu menu → menu.symbol = some id → Refers m id
  | menuMember {menu : Menu} : m.HasMenu menu → id ∈ menu.choiceMembers → Refers m id
  | menuDep {menu : Menu} {e : Expr} :
    m.HasMenu menu → menu.dep = some e → e.Mentions (.entry id) → Refers m id

/-- Whether every id that occurs in a model is a position of its table. -/
def IsClosed (m : Model) : Prop :=
  ∀ id, m.Refers id → id.position < m.symbols.size

/-- The model with a root that declares nothing. The root keeps its condition and what is below
it. -/
def withBareRoot (m : Model) : Model :=
  m.withRoot { m.root with symbol := none, choiceMembers := [] }

variable {m : Model}

/-- Truth values resolve anyway, so what counts in an expression are its ids. -/
theorem resolvesAll_iff {e : Expr} :
    m.ResolvesAll e ↔ ∀ id, e.Mentions (.entry id) → id.position < m.symbols.size := by
  unfold ResolvesAll
  simp only [Expr.mem_refs_iff]
  constructor
  · intro h id hid
    exact resolves_entry_iff.mp (h _ hid)
  · intro h sym hsym
    cases sym with
    | truth t => trivial
    | entry id => exact resolves_entry_iff.mpr (h id hsym)

/-- The menus that the check goes through are those below the root. -/
theorem mem_menus_iff {menu : Menu} : menu ∈ m.menus ↔ menu.IsBelow m.root :=
  Menu.mem_descendants_iff

/-- What is below the root does not depend on what the root declares. -/
theorem isBelow_bareRoot_iff {menu : Menu} :
    menu.IsBelow m.withBareRoot.root ↔ menu ∈ m.menus := by
  rw [mem_menus_iff, Menu.isBelow_iff, Menu.isBelow_iff]
  rfl

/-- In a sound model an id can lead out of the table only from the root. -/
theorem IsSound.isClosed_withBareRoot (h : m.IsSound) : m.withBareRoot.IsClosed := by
  intro id hid
  cases hid with
  | revDep hs he hmentions => exact resolvesAll_iff.mp (h.revDep _ hs _ he) id hmentions
  | dirDep hs he hmentions => exact resolvesAll_iff.mp (h.dirDep _ hs _ he) id hmentions
  | value hs hp he hmentions => exact resolvesAll_iff.mp (h.value _ hs _ hp _ he) id hmentions
  | visible hs hp he hmentions =>
    exact resolvesAll_iff.mp (h.visible _ hs _ hp _ he) id hmentions
  | menuSymbol hmenu hsymbol =>
    rcases hmenu with rfl | hmenu
    · cases hsymbol
    · exact resolves_entry_iff.mp (h.menuSymbol _ (isBelow_bareRoot_iff.mp hmenu) id hsymbol)
  | menuMember hmenu hmember =>
    rcases hmenu with rfl | hmenu
    · cases hmember
    · exact resolves_entry_iff.mp (h.menuMember _ (isBelow_bareRoot_iff.mp hmenu) id hmember)
  | menuDep hmenu hdep hmentions =>
    rcases hmenu with rfl | hmenu
    · exact resolvesAll_iff.mp (h.rootDep _ hdep) id hmentions
    · exact resolvesAll_iff.mp (h.menuDep _ (isBelow_bareRoot_iff.mp hmenu) _ hdep) id hmentions

/-- What closes a model below its root makes it sound. -/
theorem IsClosed.isSound (h : m.withBareRoot.IsClosed) : m.IsSound := by
  have hmenu : ∀ menu ∈ m.menus, m.withBareRoot.HasMenu menu := by
    intro menu hmenu
    exact .inr (isBelow_bareRoot_iff.mpr hmenu)
  exact {
    revDep := fun _ hs _ he => resolvesAll_iff.mpr fun id hid => h id (.revDep hs he hid)
    dirDep := fun _ hs _ he => resolvesAll_iff.mpr fun id hid => h id (.dirDep hs he hid)
    value := fun _ hs _ hp _ he => resolvesAll_iff.mpr fun id hid => h id (.value hs hp he hid)
    visible := fun _ hs _ hp _ he =>
      resolvesAll_iff.mpr fun id hid => h id (.visible hs hp he hid)
    rootDep := fun _ he => resolvesAll_iff.mpr fun id hid => h id (.menuDep (.inl rfl) he hid)
    menuSymbol := fun menu hmem id hid =>
      resolves_entry_iff.mpr (h id (.menuSymbol (hmenu menu hmem) hid))
    menuMember := fun menu hmem id hid =>
      resolves_entry_iff.mpr (h id (.menuMember (hmenu menu hmem) hid))
    menuDep := fun menu hmem _ he =>
      resolvesAll_iff.mpr fun id hid => h id (.menuDep (hmenu menu hmem) he hid) }

/-- The check passes exactly the models that are closed, the symbol and the choice members of the
root left aside. -/
theorem validate_eq_ok_iff_isClosed (m : Model) :
    m.validate = .ok () ↔ m.withBareRoot.IsClosed := by
  rw [validate_eq_ok_iff]
  exact ⟨IsSound.isClosed_withBareRoot, IsClosed.isSound⟩

/-- A model without symbols whose root is the place of one. -/
def strayRoot : Model where
  root := { symbol := some ⟨0⟩ }
  symbols_le := Nat.zero_le _

/-- It passes the check, and it is not closed. -/
theorem strayRoot_passes : strayRoot.validate = .ok () ∧ ¬ strayRoot.IsClosed := by
  constructor
  · rw [validate, menus, Menu.descendants_eq_preorder]
    rfl
  · intro hclosed
    have hrefers : strayRoot.Refers ⟨0⟩ := .menuSymbol (.inl rfl) rfl
    exact Nat.not_lt_zero _ (hclosed ⟨0⟩ hrefers)

end Model

end Kconfig
