import Kconfig.Condition.Class
import Kconfig.Proofs.Model.Entries
import Kconfig.Proofs.Run.Basic

/-!
# References that lead somewhere

A truth value stands for itself, and an id leads to an entry of the table if the table has one.
What such a reference stands for is known without a run (`Model.classify_of_resolves`).
-/

namespace Kconfig.Model

/-- Whether a reference leads to something in the model. -/
def Resolves (m : Model) : SymbolRef → Prop
  | .truth _ => True
  | .entry id => ∃ s, m.symbol? id = some s

instance (m : Model) : DecidablePred m.Resolves
  | .truth _ => isTrue trivial
  | .entry id => decidable_of_iff ((m.symbol? id).isSome = true) Option.isSome_iff_exists

/-- What a reference stands for, where it leads to something. -/
def classOf (m : Model) : SymbolRef → SymbolClass
  | .truth t => .truth t.isTrue
  | .entry id => ((m.symbol? id).map Symbol.class).getD (.truth true)

/-- The entry of an id is found, without more ado. -/
theorem find_of_symbol? {m : Model} {id : SymbolId} {s : Symbol} (h : m.symbol? id = some s) :
    m.find id = pure s := by
  unfold find
  simp only [h]

/-- What is found is the entry of the id. -/
theorem symbol?_of_find_ok {m : Model} {id : SymbolId} {s : Symbol}
    (h : (m.find id).ending = .ok s) : m.symbol? id = some s := by
  unfold find at h
  rcases hs : m.symbol? id with _ | s'
  · simp only [hs] at h
    cases h
  · simp only [hs] at h
    exact congrArg some (Except.ok.inj h)

/-- A reference that the table has is classified without more ado. -/
theorem classify_of_resolves {m : Model} {r : SymbolRef} (h : m.Resolves r) :
    m.classify r = pure (m.classOf r) := by
  cases r with
  | truth t => rfl
  | entry id =>
    obtain ⟨s, hs⟩ := h
    simp [classify, classOf, find_of_symbol? hs, hs]

/-- Where the entries of each id stand for the same, so do all references. -/
theorem classify_eq_of_class {m m' : Model} (hsize : m'.symbols.size = m.symbols.size)
    (hclass : ∀ id s s', m.symbol? id = some s → m'.symbol? id = some s' → s'.class = s.class) :
    m'.classify = m.classify := by
  funext sym
  cases sym with
  | truth t => rfl
  | entry id =>
    rcases symbol?_cases_of_size hsize id with ⟨hs, hs'⟩ | ⟨s, s', hs, hs'⟩
    · simp only [classify, find, hs, hs']
    · simp only [classify, find, hs, hs', pure_bind, hclass id s s' hs hs']

/-- A reference leads to something exactly if its id is a position of the table. -/
theorem resolves_entry_iff {m : Model} {id : SymbolId} :
    m.Resolves (.entry id) ↔ id.position < m.symbols.size := by
  unfold Resolves symbol?
  constructor
  · rintro ⟨s, hs⟩
    exact (Array.getElem?_eq_some_iff.mp hs).1
  · intro h
    exact ⟨m.symbols[id.position], Array.getElem?_eq_getElem h⟩

end Kconfig.Model
