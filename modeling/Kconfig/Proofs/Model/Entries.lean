import Kconfig.Model.Basic
import Mathlib.Data.List.Forall2

/-!
# The entries of the table

The list of entries and the lookup by id are two views of one table: an entry is in the list exactly
if its id leads to it (`Model.mem_entries_iff`). What is done for each entry in turn comes to the
same on two tables of one size, if it does so on the entries of each id
(`Model.flatMap_entries_congr`).
-/

namespace Kconfig.Model

variable {m m' : Model}

/-- The entry at a position is the symbol there, with the id of the position. -/
theorem getElem?_entries (m : Model) (i : Nat) :
    m.entries[i]? = m.symbols[i]?.map fun s => (SymbolId.ofPosition i, s) := by
  unfold entries
  rw [List.getElem?_mapIdx, Array.getElem?_toList]

/-- The entry at a position is found by its id. -/
theorem symbol?_ofPosition {i : Nat} (h : i < m.symbols.size) :
    m.symbol? (.ofPosition i) = m.symbols[i]? := by
  have hid : i < UInt32.size := Nat.lt_of_lt_of_le h m.symbols_le
  unfold symbol?
  rw [SymbolId.position_ofPosition hid]

/-- The entry of an id is at its position. -/
theorem getElem?_entries_of_symbol? {id : SymbolId} {s : Symbol} (h : m.symbol? id = some s) :
    m.entries[id.position]? = some (id, s) := by
  have hentry : m.symbols[id.position]? = some s := h
  rw [getElem?_entries, hentry, Option.map_some, SymbolId.ofPosition_position]

/-- The table has an entry just if its id leads to its symbol. -/
theorem mem_entries_iff {id : SymbolId} {s : Symbol} :
    (id, s) ∈ m.entries ↔ m.symbol? id = some s := by
  rw [List.mem_iff_getElem?]
  constructor
  · rintro ⟨i, hentry⟩
    rw [getElem?_entries, Option.map_eq_some_iff] at hentry
    obtain ⟨s', hs', heq⟩ := hentry
    obtain ⟨rfl, rfl⟩ := Prod.mk.inj heq
    have hi : i < m.symbols.size := (Array.getElem?_eq_some_iff.mp hs').1
    rw [symbol?_ofPosition hi, hs']
  · intro h
    exact ⟨id.position, getElem?_entries_of_symbol? h⟩

/-- The table has a named entry just if its id leads to its symbol, which has the name. -/
theorem mem_namedEntries_iff {id : SymbolId} {name : String} {s : Symbol} :
    (id, name, s) ∈ m.namedEntries ↔ m.symbol? id = some s ∧ s.named = some name := by
  unfold namedEntries
  simp only [List.mem_filterMap, Option.map_eq_some_iff, Prod.mk.injEq]
  constructor
  · rintro ⟨⟨id', s'⟩, hentry, name', hname, rfl, rfl, rfl⟩
    exact ⟨mem_entries_iff.mp hentry, hname⟩
  · rintro ⟨hs, hname⟩
    exact ⟨(id, s), mem_entries_iff.mpr hs, name, hname, rfl, rfl, rfl⟩

/-- Every symbol of the table has an entry. -/
theorem exists_mem_entries {s : Symbol} (h : s ∈ m.symbols) : ∃ id, (id, s) ∈ m.entries := by
  obtain ⟨i, hi, rfl⟩ := Array.mem_iff_getElem.mp h
  have hsymbol : m.symbol? (.ofPosition i) = some m.symbols[i] := by
    rw [symbol?_ofPosition hi, Array.getElem?_eq_getElem hi]
  exact ⟨.ofPosition i, mem_entries_iff.mpr hsymbol⟩

/-- Each id has one entry. -/
theorem nodup_entries (m : Model) : (m.entries.map Prod.fst).Nodup := by
  have hposition : ∀ i, (hi : i < (m.entries.map Prod.fst).length) →
      (m.entries.map Prod.fst)[i].position = i := by
    intro i hi
    rw [List.length_map, entries, List.length_mapIdx, Array.length_toList] at hi
    simp only [entries, List.getElem_map, List.getElem_mapIdx]
    exact SymbolId.position_ofPosition (Nat.lt_of_lt_of_le hi m.symbols_le)
  rw [List.Nodup, List.pairwise_iff_getElem]
  intro i j hi hj hij heq
  have hsame : i = j := by rw [← hposition i hi, ← hposition j hj, heq]
  omega

/-- In tables of one size, an id leads to symbols in both or in neither. -/
theorem symbol?_cases_of_size (hsize : m'.symbols.size = m.symbols.size) (id : SymbolId) :
    (m.symbol? id = none ∧ m'.symbol? id = none) ∨
      ∃ s s', m.symbol? id = some s ∧ m'.symbol? id = some s' := by
  by_cases hid : id.position < m.symbols.size
  · have hid' : id.position < m'.symbols.size := hsize.symm ▸ hid
    exact .inr ⟨_, _, Array.getElem?_eq_getElem hid, Array.getElem?_eq_getElem hid'⟩
  · have hid' : m'.symbols.size ≤ id.position := hsize ▸ Nat.le_of_not_lt hid
    exact .inl ⟨Array.getElem?_eq_none (Nat.le_of_not_lt hid), Array.getElem?_eq_none hid'⟩

/-- Tables that are related entry by entry are of one size, and of each id the symbols are related. -/
theorem symbol?_of_forall₂_entries {R : SymbolId → Symbol → Symbol → Prop}
    (h : List.Forall₂ (fun x x' => R x.1 x.2 x'.2) m.entries m'.entries) :
    m'.symbols.size = m.symbols.size ∧
      ∀ id s s', m.symbol? id = some s → m'.symbol? id = some s' → R id s s' := by
  have hsize : m'.symbols.size = m.symbols.size := by
    simpa [entries] using h.length_eq.symm
  refine ⟨hsize, ?_⟩
  intro id s s' hs hs'
  obtain ⟨hi, hentry⟩ := List.getElem?_eq_some_iff.mp (getElem?_entries_of_symbol? hs)
  obtain ⟨hi', hentry'⟩ := List.getElem?_eq_some_iff.mp (getElem?_entries_of_symbol? hs')
  have hrelated := h.get hi hi'
  rw [List.get_eq_getElem, List.get_eq_getElem, hentry, hentry'] at hrelated
  exact hrelated

/-- Two tables of one size give the same list, entry by entry, if they do under each id. -/
theorem flatMap_entries_congr {α : Type} {f g : SymbolId × Symbol → List α}
    (hsize : m'.symbols.size = m.symbols.size)
    (h : ∀ id s s', m.symbol? id = some s → m'.symbol? id = some s' → g (id, s') = f (id, s)) :
    m'.entries.flatMap g = m.entries.flatMap f := by
  have hmap : m'.entries.map g = m.entries.map f := by
    apply List.ext_getElem?
    intro i
    rw [List.getElem?_map, List.getElem?_map, getElem?_entries, getElem?_entries]
    by_cases hi : i < m.symbols.size
    · have hi' : i < m'.symbols.size := hsize ▸ hi
      have hs := Array.getElem?_eq_getElem hi
      have hs' := Array.getElem?_eq_getElem hi'
      have heq := h _ _ _ ((symbol?_ofPosition hi).trans hs) ((symbol?_ofPosition hi').trans hs')
      rw [hs, hs']
      exact congrArg some heq
    · have hi' : m'.symbols.size ≤ i := hsize ▸ Nat.le_of_not_lt hi
      rw [Array.getElem?_eq_none (Nat.le_of_not_lt hi), Array.getElem?_eq_none hi']
      rfl
  rw [List.flatMap_def, List.flatMap_def, hmap]

end Kconfig.Model
