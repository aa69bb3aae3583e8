import Kconfig.Proofs.Model.Soundness

/-!
# Models altered symbol by symbol

The same may be done to every symbol of a model (`Model.mapSymbols`). The table keeps its size, so
ids lead where they led before, and what a reference stands for is the same if it is the same of
each symbol.

One such alteration concerns the choices of a type that choices cannot have, at which both the
encoding and the dump stop (`Symbol.IsInvalidChoice`). Without the flag that makes them choices they
are symbols like others (`Model.withoutInvalidChoices`), and all else in the model is as it was.
-/

namespace Kconfig

/-! ## Any alteration -/

namespace Model

variable {f : Symbol → Symbol} {m : Model}

/-- The model with something done to each symbol. -/
def mapSymbols (f : Symbol → Symbol) (m : Model) : Model :=
  { m with
    symbols := m.symbols.map f
    symbols_le := by
      rw [Array.size_map]
      exact m.symbols_le }

/-- An id leads to the changed symbol. -/
theorem symbol?_mapSymbols (id : SymbolId) :
    (m.mapSymbols f).symbol? id = (m.symbol? id).map f :=
  Array.getElem?_map

/-- The table of a changed model has the changed symbols under the same ids. -/
theorem entries_mapSymbols (f : Symbol → Symbol) (m : Model) :
    (m.mapSymbols f).entries = m.entries.map fun x => (x.1, f x.2) := by
  apply List.ext_getElem?
  intro i
  have hsymbol : (m.mapSymbols f).symbols[i]? = m.symbols[i]?.map f := Array.getElem?_map
  rw [List.getElem?_map, getElem?_entries, getElem?_entries, hsymbol, Option.map_map, Option.map_map]
  rfl

/-- The symbols of a changed model are the changed symbols. -/
theorem mem_symbols_mapSymbols_iff {s' : Symbol} :
    s' ∈ (m.mapSymbols f).symbols ↔ ∃ s ∈ m.symbols, f s = s' :=
  Array.mem_map

/-- A reference leads somewhere in a changed model just if it does in the model. -/
theorem resolves_mapSymbols_iff {sym : SymbolRef} :
    (m.mapSymbols f).Resolves sym ↔ m.Resolves sym := by
  rcases sym with t | id
  · rfl
  · rw [resolves_entry_iff, resolves_entry_iff]
    show id.position < (m.symbols.map f).size ↔ id.position < m.symbols.size
    rw [Array.size_map]

/-- References stand for the same if symbols do. -/
theorem classOf_mapSymbols (h : ∀ s, (f s).class = s.class) :
    (m.mapSymbols f).classOf = m.classOf := by
  funext sym
  rcases sym with t | id
  · rfl
  · have hclass : Symbol.class ∘ f = Symbol.class := funext h
    simp only [classOf, symbol?_mapSymbols, Option.map_map, hclass]

/-- What does not touch expressions keeps a model sound. -/
theorem IsSound.mapSymbols (h : m.IsSound) (hrevDep : ∀ s, (f s).revDep = s.revDep)
    (hdirDep : ∀ s, (f s).dirDep = s.dirDep) (hproperties : ∀ s, (f s).properties = s.properties) :
    (m.mapSymbols f).IsSound := by
  have hresolves : ∀ e, m.ResolvesAll e → (m.mapSymbols f).ResolvesAll e := by
    intro e he sym hsym
    exact resolves_mapSymbols_iff.mpr (he sym hsym)
  have hsymbols : ∀ s' ∈ (m.mapSymbols f).symbols, ∃ s ∈ m.symbols, f s = s' := by
    intro s' hs'
    exact mem_symbols_mapSymbols_iff.mp hs'
  refine ⟨?_, ?_, ?_, ?_, ?_, ?_, ?_, ?_⟩
  · intro s' hs' e he
    obtain ⟨s, hs, rfl⟩ := hsymbols s' hs'
    rw [hrevDep] at he
    exact hresolves e (h.revDep s hs e he)
  · intro s' hs' e he
    obtain ⟨s, hs, rfl⟩ := hsymbols s' hs'
    rw [hdirDep] at he
    exact hresolves e (h.dirDep s hs e he)
  · intro s' hs' p hp e he
    obtain ⟨s, hs, rfl⟩ := hsymbols s' hs'
    rw [hproperties] at hp
    exact hresolves e (h.value s hs p hp e he)
  · intro s' hs' p hp e he
    obtain ⟨s, hs, rfl⟩ := hsymbols s' hs'
    rw [hproperties] at hp
    exact hresolves e (h.visible s hs p hp e he)
  · intro e he
    exact hresolves e (h.rootDep e he)
  · intro menu hmenu id hid
    exact resolves_mapSymbols_iff.mpr (h.menuSymbol menu hmenu id hid)
  · intro menu hmenu id hid
    exact resolves_mapSymbols_iff.mpr (h.menuMember menu hmenu id hid)
  · intro menu hmenu e he
    exact hresolves e (h.menuDep menu hmenu e he)

end Model

/-! ## Choices of other types -/

/-- The bits of flags but for some. -/
def SymbolFlags.without (flags unwanted : SymbolFlags) : SymbolFlags :=
  ⟨flags.bits &&& ~~~ unwanted.bits⟩

namespace Symbol

variable {s : Symbol}

/-- Whether a symbol, named or not, is a choice of a type that choices cannot have. -/
def IsInvalidChoice (s : Symbol) : Prop :=
  s.isChoice ∧ s.kind ≠ .bool ∧ s.kind ≠ .tristate

instance : DecidablePred IsInvalidChoice := fun s =>
  inferInstanceAs (Decidable (s.isChoice = true ∧ s.kind ≠ .bool ∧ s.kind ≠ .tristate))

/-- A choice of a wrong type is a choice whose type is neither of the two Boolean ones. -/
theorem isInvalidChoice_iff : s.IsInvalidChoice ↔ s.isChoice ∧ ¬ s.kind.isBoolean := by
  unfold IsInvalidChoice
  rcases s.kind <;> simp [SymbolKind.isBoolean]

/-- The symbol, which is no choice any more if it has a type that choices cannot have. -/
def withoutInvalidChoice (s : Symbol) : Symbol :=
  if s.IsInvalidChoice then { s with flags := s.flags.without .choice } else s

/-- A symbol that is no choice of a wrong type stays as it is. -/
theorem withoutInvalidChoice_eq_self (h : ¬ s.IsInvalidChoice) : s.withoutInvalidChoice = s :=
  if_neg h

/-- Nothing but the flags changes. -/
theorem exists_withoutInvalidChoice_eq (s : Symbol) :
    ∃ flags, s.withoutInvalidChoice = { s with flags := flags } := by
  unfold withoutInvalidChoice
  split
  · exact ⟨_, rfl⟩
  · exact ⟨s.flags, rfl⟩

/-- What the flag was cleared of is no choice of a wrong type any more. -/
theorem not_isInvalidChoice_withoutInvalidChoice (s : Symbol) :
    ¬ s.withoutInvalidChoice.IsInvalidChoice := by
  by_cases h : s.IsInvalidChoice
  · have hbits : s.flags.bits &&& ~~~ SymbolFlags.choice.bits &&& SymbolFlags.choice.bits = 0 := by
      rw [UInt32.and_assoc]
      exact UInt32.and_zero
    have hchoice : s.withoutInvalidChoice.isChoice = false := by
      rw [withoutInvalidChoice, if_pos h]
      show decide (s.flags.bits &&& ~~~ SymbolFlags.choice.bits &&& SymbolFlags.choice.bits =
        SymbolFlags.choice.bits) = false
      rw [hbits]
      rfl
    intro hinvalid
    rw [IsInvalidChoice, hchoice] at hinvalid
    exact absurd hinvalid.1 Bool.false_ne_true
  · rw [withoutInvalidChoice_eq_self h]
    exact h

/-- Clearing the flag does not change how a symbol is written. -/
theorem class_withoutInvalidChoice (s : Symbol) : s.withoutInvalidChoice.class = s.class := by
  obtain ⟨flags, hs⟩ := s.exists_withoutInvalidChoice_eq
  rw [hs]
  rfl

end Symbol

namespace Model

/-- The model without the choices of a type that choices cannot have: they keep all but the flag
that makes them choices. -/
def withoutInvalidChoices (m : Model) : Model :=
  m.mapSymbols Symbol.withoutInvalidChoice

/-- Clearing the flags leaves a sound model sound. -/
theorem IsSound.withoutInvalidChoices {m : Model} (h : m.IsSound) :
    m.withoutInvalidChoices.IsSound := by
  apply h.mapSymbols
  all_goals
    intro s
    obtain ⟨flags, hs⟩ := s.exists_withoutInvalidChoice_eq
    rw [hs]

end Model

end Kconfig
