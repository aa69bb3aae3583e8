import Kconfig.Proofs.Model.ChoiceShape

/-!
# Models that differ in the order of properties

A parser may read the properties of a symbol in another order. What is asked of a symbol is asked of
its properties of one kind, so the order matters only among these: two symbols are rearrangements of
each other if they have the same properties of each kind in the same order
(`Symbol.IsRearranged`), and two models if their symbols are (`Model.IsRearranged`). Nothing is left
out or said twice in a rearrangement (`Symbol.IsRearranged.perm`).

All that goes through a table entry by entry finds the same in both, if what it asks of an entry
does (`Model.IsRearranged.namedEntries_congr`).
-/

namespace Kconfig

/-! ## Symbols -/

namespace Symbol

/-- Whether two symbols are the same but for the order among properties of different kinds. -/
structure IsRearranged (s s' : Symbol) : Prop where
  name : s'.name = s.name
  kind : s'.kind = s.kind
  flags : s'.flags = s.flags
  revDep : s'.revDep = s.revDep
  dirDep : s'.dirDep = s.dirDep
  propertiesOf : ∀ kind, s'.propertiesOf kind = s.propertiesOf kind

namespace IsRearranged

variable {s s' : Symbol}

/-- A symbol is a rearrangement of itself. -/
theorem refl (s : Symbol) : s.IsRearranged s :=
  ⟨rfl, rfl, rfl, rfl, rfl, fun _ => rfl⟩

/-- A rearrangement changes nothing that is read apart from the order among kinds. -/
theorem agrees (h : s.IsRearranged s') : s.AgreesOutsideChoice s' :=
  ⟨h.name, h.kind, h.flags, h.revDep, h.dirDep, fun kind _ => h.propertiesOf kind⟩

/-- The properties are the same, each as often, since each is of one kind. -/
theorem perm (h : s.IsRearranged s') : s'.properties.Perm s.properties := by
  classical
  rw [List.perm_iff_count]
  intro p
  have hcount : (s'.propertiesOf p.kind).count p = (s.propertiesOf p.kind).count p := by
    rw [h.propertiesOf]
  unfold Symbol.propertiesOf at hcount
  rwa [List.count_filter (by simp), List.count_filter (by simp)] at hcount

/-- Whether a symbol is on by default does not depend on the order among kinds. -/
theorem isDefault (h : s.IsRearranged s') : s'.isDefault = s.isDefault := by
  unfold Symbol.isDefault
  rw [h.agrees.prompts, h.agrees.defaults, h.revDep]

end IsRearranged

end Symbol

/-! ## Models -/

namespace Model

variable {m m' : Model}

/-- Whether two models are the same but for the order among properties of different kinds. -/
structure IsRearranged (m m' : Model) : Prop where
  capabilities : m'.capabilities = m.capabilities
  root : m'.root = m.root
  size : m'.symbols.size = m.symbols.size
  symbol : ∀ id s s', m.symbol? id = some s → m'.symbol? id = some s' → s.IsRearranged s'

namespace IsRearranged

/-- Tables that are related entry by entry. -/
theorem of_entries (hcapabilities : m'.capabilities = m.capabilities) (hroot : m'.root = m.root)
    (h : List.Forall₂ (fun x x' => x.2.IsRearranged x'.2) m.entries m'.entries) :
    m.IsRearranged m' := by
  obtain ⟨hsize, hsymbol⟩ := symbol?_of_forall₂_entries (R := fun _ => Symbol.IsRearranged) h
  exact ⟨hcapabilities, hroot, hsize, hsymbol⟩

/-- A reference stands for the same in both. -/
theorem classify_eq (h : m.IsRearranged m') : m'.classify = m.classify := by
  apply classify_eq_of_class h.size
  intro id s s' hs hs'
  exact (h.symbol id s s' hs hs').agrees.class_eq

/-- The menus are the same. -/
theorem menus_eq (h : m.IsRearranged m') : m'.menus = m.menus := by
  unfold menus
  rw [h.root]

/-- A choice has the same members, in properties as in menus. -/
theorem choiceMembers_eq (h : m.IsRearranged m') {s s' : Symbol} (hs : s.IsRearranged s')
    (id : SymbolId) : m'.choiceMembers id s' = m.choiceMembers id s := by
  unfold choiceMembers firstMenu
  rw [h.capabilities, hs.propertiesOf, h.menus_eq]

/-- What is read off the named entries that pass a test is the same in both, if it is of symbols
that are rearrangements of each other. -/
theorem namedEntries_congr {α : Type} (h : m.IsRearranged m') (test : String → Symbol → Bool)
    (view : String → Symbol → α)
    (htest : ∀ name s s', s.IsRearranged s' → test name s' = test name s)
    (hview : ∀ name s s', s.IsRearranged s' → view name s' = view name s) :
    (m'.namedEntries.filter fun x => test x.2.1 x.2.2).map (fun x => view x.2.1 x.2.2) =
      (m.namedEntries.filter fun x => test x.2.1 x.2.2).map fun x => view x.2.1 x.2.2 := by
  simp only [namedEntries, List.filterMap_eq_flatMap_toList, List.filter_flatMap, List.map_flatMap]
  apply flatMap_entries_congr h.size
  intro id s s' hs hs'
  have hrearranged := h.symbol id s s' hs hs'
  rw [hrearranged.agrees.named]
  rcases s.named with _ | name
  · rfl
  · simp only [Option.map_some, Option.toList_some, List.filter_singleton,
      htest name s s' hrearranged]
    cases test name s
    · rfl
    · exact congrArg List.singleton (hview name s s' hrearranged)

/-- A name leads to the same entry, as far as it can be told. -/
theorem lookup_congr {α : Type} (h : m.IsRearranged m') (view : Symbol → α)
    (hview : ∀ s s', s.IsRearranged s' → view s' = view s) (name : String) :
    (m'.lookup name).map (fun x => view x.2) = (m.lookup name).map fun x => view x.2 := by
  have hentries := h.namedEntries_congr (fun n s => n = name && !s.isConstant) (fun _ s => view s)
    (fun n s s' hs => by rw [hs.agrees.isConstant]) (fun _ s s' hs => hview s s' hs)
  unfold lookup
  rw [Option.map_map, Option.map_map, ← List.head?_filter, ← List.head?_filter, ← List.head?_map,
    ← List.head?_map]
  exact congrArg List.head? hentries

end IsRearranged

end Model

end Kconfig
