import Kconfig.Model.Validation
import Kconfig.Proofs.Model.Resolution

/-!
# What the check of a model is worth

A model passes the check exactly if every reference in it resolves: those of its symbols, of the
condition of the root and of the menus below the root (`Model.validate_eq_ok_iff`). So in a checked
model the members of every choice resolve too, wherever they are recorded
(`Model.IsSound.choiceMembers`).
-/

namespace Kconfig

namespace Model

variable {m : Model}

/-- Whether everything that an expression refers to resolves. -/
def ResolvesAll (m : Model) (e : Expr) : Prop :=
  ∀ sym ∈ e.refs, m.Resolves sym

/-- A model whose references all resolve. Of the root only the condition counts. -/
structure IsSound (m : Model) : Prop where
  revDep : ∀ s ∈ m.symbols, ∀ e ∈ s.revDep, m.ResolvesAll e
  dirDep : ∀ s ∈ m.symbols, ∀ e ∈ s.dirDep, m.ResolvesAll e
  value : ∀ s ∈ m.symbols, ∀ p ∈ s.properties, ∀ e ∈ p.expr, m.ResolvesAll e
  visible : ∀ s ∈ m.symbols, ∀ p ∈ s.properties, ∀ e ∈ p.visible, m.ResolvesAll e
  rootDep : ∀ e ∈ m.root.dep, m.ResolvesAll e
  menuSymbol : ∀ menu ∈ m.menus, ∀ id ∈ menu.symbol, m.Resolves (.entry id)
  menuMember : ∀ menu ∈ m.menus, ∀ id ∈ menu.choiceMembers, m.Resolves (.entry id)
  menuDep : ∀ menu ∈ m.menus, ∀ e ∈ menu.dep, m.ResolvesAll e

/-! ## Checks that pass -/

/-- Two checks in a row pass just if both do. -/
theorem check_seq_eq_ok_iff {a : Except Error Unit} {b : Unit → Except Error Unit} :
    a >>= b = .ok () ↔ a = .ok () ∧ b () = .ok () := by
  cases a with
  | error e => simp [bind, Except.bind]
  | ok u => simp [bind, Except.bind]

/-- Of many parts, the first is checked and then the others. -/
theorem check_forM_cons {α : Type} (check : α → Except Error Unit) (a : α) (as : List α) :
    (a :: as).forM check = (check a >>= fun _ => as.forM check) := rfl

/-- A check of each of many passes just if it does for each. -/
theorem check_forM_eq_ok_iff {α : Type} {check : α → Except Error Unit} {as : List α} :
    as.forM check = .ok () ↔ ∀ a ∈ as, check a = .ok () := by
  induction as with
  | nil => exact iff_of_true rfl nofun
  | cons a as ih =>
    rw [check_forM_cons, check_seq_eq_ok_iff, ih, List.forall_mem_cons]

/-- The check of an id passes just if the table has it. -/
theorem checkId_eq_ok_iff {id : SymbolId} : m.checkId id = .ok () ↔ m.Resolves (.entry id) := by
  rw [resolves_entry_iff]
  unfold checkId
  by_cases h : id.position < m.symbols.size
  · rw [if_pos h]
    exact iff_of_true rfl h
  · rw [if_neg h]
    exact iff_of_false nofun h

/-- The check of an expression passes just if the table has its references. -/
theorem checkExpr_eq_ok_iff {e : Expr} : m.checkExpr e = .ok () ↔ m.ResolvesAll e := by
  unfold checkExpr
  rw [check_forM_eq_ok_iff]
  apply forall₂_congr
  intro sym _
  cases sym with
  | truth t => exact iff_of_true rfl trivial
  | entry id => exact checkId_eq_ok_iff

/-- The check of an expression that may be absent passes just if the table has its references. -/
theorem checkOptional_eq_ok_iff {e : Option Expr} :
    m.checkOptional e = .ok () ↔ ∀ e' ∈ e, m.ResolvesAll e' := by
  rcases e with _ | e
  · simp [checkOptional]
  · simp [checkOptional, checkExpr_eq_ok_iff]

/-- The check of a property passes just if the table has what its expressions refer to. -/
theorem checkProperty_eq_ok_iff {p : Property} :
    m.checkProperty p = .ok () ↔
      (∀ e ∈ p.expr, m.ResolvesAll e) ∧ ∀ e ∈ p.visible, m.ResolvesAll e := by
  unfold checkProperty
  rw [check_seq_eq_ok_iff, checkOptional_eq_ok_iff, checkOptional_eq_ok_iff]

/-- The check of a symbol passes just if the table has what its expressions refer to. -/
theorem checkSymbol_eq_ok_iff {s : Symbol} :
    m.checkSymbol s = .ok () ↔
      (∀ e ∈ s.revDep, m.ResolvesAll e) ∧ (∀ e ∈ s.dirDep, m.ResolvesAll e) ∧
        ∀ p ∈ s.properties,
          (∀ e ∈ p.expr, m.ResolvesAll e) ∧ ∀ e ∈ p.visible, m.ResolvesAll e := by
  unfold checkSymbol
  simp only [check_seq_eq_ok_iff, checkOptional_eq_ok_iff, check_forM_eq_ok_iff,
    checkProperty_eq_ok_iff]

/-- The check of a menu passes just if the table has its symbol, its members and what its dependency
refers to. -/
theorem checkMenu_eq_ok_iff {menu : Menu} :
    m.checkMenu menu = .ok () ↔
      (∀ id ∈ menu.symbol, m.Resolves (.entry id)) ∧
        (∀ id ∈ menu.choiceMembers, m.Resolves (.entry id)) ∧
          ∀ e ∈ menu.dep, m.ResolvesAll e := by
  unfold checkMenu
  rcases menu.symbol with _ | id
  · simp only [check_seq_eq_ok_iff, check_forM_eq_ok_iff, checkId_eq_ok_iff,
      checkOptional_eq_ok_iff]
    exact (and_iff_right nofun).symm
  · simp only [check_seq_eq_ok_iff, check_forM_eq_ok_iff, checkId_eq_ok_iff,
      checkOptional_eq_ok_iff, Option.mem_some_iff, forall_eq']

/-- The check passes exactly the sound models. -/
theorem validate_eq_ok_iff : m.validate = .ok () ↔ m.IsSound := by
  unfold validate
  rw [check_seq_eq_ok_iff, check_seq_eq_ok_iff, check_forM_eq_ok_iff,
    check_forM_eq_ok_iff, checkOptional_eq_ok_iff]
  simp only [checkSymbol_eq_ok_iff, checkMenu_eq_ok_iff, Array.mem_toList_iff]
  constructor
  · rintro ⟨hsymbols, hroot, hmenus⟩
    exact {
      revDep := fun s hs => (hsymbols s hs).1
      dirDep := fun s hs => (hsymbols s hs).2.1
      value := fun s hs p hp => ((hsymbols s hs).2.2 p hp).1
      visible := fun s hs p hp => ((hsymbols s hs).2.2 p hp).2
      rootDep := hroot
      menuSymbol := fun menu hmenu => (hmenus menu hmenu).1
      menuMember := fun menu hmenu => (hmenus menu hmenu).2.1
      menuDep := fun menu hmenu => (hmenus menu hmenu).2.2 }
  · intro h
    refine ⟨?_, h.rootDep, ?_⟩
    · intro s hs
      refine ⟨h.revDep s hs, h.dirDep s hs, ?_⟩
      intro p hp
      exact ⟨h.value s hs p hp, h.visible s hs p hp⟩
    · intro menu hmenu
      exact ⟨h.menuSymbol menu hmenu, h.menuMember menu hmenu, h.menuDep menu hmenu⟩

/-! ## What is found in a model -/

/-- An entry of the table has a symbol of the table. -/
theorem mem_symbols_of_mem_entries {id : SymbolId} {s : Symbol} (h : (id, s) ∈ m.entries) :
    s ∈ m.symbols := by
  obtain ⟨i, hi, heq⟩ := List.mem_mapIdx.mp h
  simp only [Prod.mk.injEq] at heq
  rw [← heq.2]
  exact Array.mem_toList_iff.mp (List.getElem_mem hi)

/-- An id leads to a symbol of the table. -/
theorem mem_symbols_of_symbol? {id : SymbolId} {s : Symbol} (h : m.symbol? id = some s) :
    s ∈ m.symbols :=
  Array.mem_of_getElem? h

/-- A name leads to a symbol of the table. -/
theorem mem_symbols_of_lookup {name : String} {id : SymbolId} {s : Symbol}
    (h : m.lookup name = some (id, s)) : s ∈ m.symbols := by
  unfold lookup at h
  simp only [Option.map_eq_some_iff] at h
  obtain ⟨⟨id', n, s'⟩, hfind, heq⟩ := h
  obtain ⟨rfl, rfl⟩ := Prod.mk.inj heq
  have hs := (mem_namedEntries_iff.mp (List.mem_of_find?_eq_some hfind)).1
  exact mem_symbols_of_symbol? hs

/-- The members of a chain are among the symbols that it refers to. -/
theorem members_subset_refs (e : Expr) : e.members ⊆ e.refs := by
  induction e with
  | listLast a => simp [Expr.members]
  | listCons a tail ih =>
    intro sym hsym
    rw [Expr.members, List.mem_cons] at hsym
    rw [Expr.refs_listCons, List.mem_cons]
    rcases hsym with heq | htail
    · exact .inl heq
    · exact .inr (ih htail)
  | symbol | not | compare | and | or | range | unknown => exact List.nil_subset _

/-- The members of a choice resolve, wherever they are recorded. -/
theorem IsSound.choiceMembers (h : m.IsSound) {id : SymbolId} {s : Symbol} (hs : s ∈ m.symbols) :
    ∀ sym ∈ m.choiceMembers id s, m.Resolves sym := by
  unfold Model.choiceMembers
  cases m.capabilities.choiceMembers with
  | property =>
    rcases hp : (s.propertiesOf .choice).head? with _ | p
    · exact nofun
    · have hmem : p ∈ s.properties := (List.mem_filter.mp (List.mem_of_head? hp)).1
      rcases he : p.expr with _ | e
      · simp [he]
      · simp only [he, Option.map_some, Option.getD_some]
        intro sym hsym
        apply h.value s hs p hmem e he
        exact members_subset_refs e hsym
  | menu =>
    rcases hmenu : m.firstMenu id with _ | menu
    · exact nofun
    · have hmem : menu ∈ m.menus := List.mem_of_find?_eq_some hmenu
      simp only [List.mem_map]
      rintro sym ⟨member, hmember, rfl⟩
      exact h.menuMember menu hmem member hmember

end Model

end Kconfig
