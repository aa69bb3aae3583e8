import Kconfig.Proofs.Model.Resolution

/-!
# Models that agree about an id

What a reference stands for depends on three fields of the entry that it leads to: the name, the
kind and the flags. These are the head of the entry. Two models agree about an id if it leads to
nothing in both, or to entries of the same head (`Model.AgreesAt`). Their tables may be of different
sizes, and differ in everything else.

A reference to such an id stands for the same in both models (`Model.classify_eq_of_agreesAt`).
-/

namespace Kconfig

/-! ## Heads -/

namespace Symbol

/-- Whether two symbols have the same head. -/
structure SameHead (s s' : Symbol) : Prop where
  name : s'.name = s.name
  kind : s'.kind = s.kind
  flags : s'.flags = s.flags

namespace SameHead

variable {s s' : Symbol}

/-- The name of a symbol is in its head. -/
theorem named (h : s.SameHead s') : s'.named = s.named := by
  unfold Symbol.named
  rw [h.name]

/-- Whether a symbol is a choice is in its head. -/
theorem isChoice (h : s.SameHead s') : s'.isChoice = s.isChoice := by
  unfold Symbol.isChoice
  rw [h.flags]

/-- Whether a symbol is a constant is in its head. -/
theorem isConstant (h : s.SameHead s') : s'.isConstant = s.isConstant := by
  unfold Symbol.isConstant
  rw [h.flags]

/-- The class of a symbol is in its head. -/
theorem class_eq (h : s.SameHead s') : s'.class = s.class := by
  unfold Symbol.class
  rw [h.named, h.kind]

end SameHead

end Symbol

/-! ## References -/

namespace Model

variable {m m' : Model}

/-- Whether an id leads to nothing in both models, or to entries of the same head. -/
inductive AgreesAt (m m' : Model) (id : SymbolId) : Prop where
  | absent (h : m.symbol? id = none) (h' : m'.symbol? id = none)
  | present {s s' : Symbol} (h : m.symbol? id = some s) (h' : m'.symbol? id = some s')
    (head : s.SameHead s')

/-- A reference that two models agree at is classified alike. -/
theorem classify_eq_of_agreesAt {sym : SymbolRef} (h : ∀ id, sym = .entry id → m.AgreesAt m' id) :
    m'.classify sym = m.classify sym := by
  cases sym with
  | truth t => rfl
  | entry id =>
    cases h id rfl with
    | absent hs hs' => simp only [classify, find, hs, hs']
    | present hs hs' head => simp only [classify, find, hs, hs', pure_bind, head.class_eq]

end Model

end Kconfig
