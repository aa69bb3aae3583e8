/-!
# Symbols as they are referred to

A configuration model keeps its options in one table. Everything else names an option by its
position there, as a `SymbolId`, or names one of the three truth values that every model has:
`y`, `m` and `n`. A `SymbolRef` is either.

Positions are 32-bit words, as they are in the files that models are read from. A table has at
most `2 ^ 32` entries (`Model.symbols_le`), so that every entry has an id of its own
(`SymbolId.position_ofPosition`).
-/

namespace Kconfig

/-- A position in the symbol table. -/
structure SymbolId where
  /-- The position, counted from zero. -/
  index : UInt32
deriving DecidableEq

namespace SymbolId

/-- The position as a number. -/
def position (id : SymbolId) : Nat :=
  id.index.toNat

/-- The id of the entry at a position. -/
def ofPosition (n : Nat) : SymbolId :=
  ⟨UInt32.ofNat n⟩

/-- How messages and the dump write an id: `S@3`. -/
def label (id : SymbolId) : String :=
  "S@" ++ toString id.position

/-- Below `2 ^ 32`, an entry's id leads back to its position. -/
@[simp] theorem position_ofPosition {n : Nat} (h : n < UInt32.size) :
    (ofPosition n).position = n :=
  UInt32.toNat_ofNat_of_lt h

/-- An id is the id of its position. -/
@[simp] theorem ofPosition_position (id : SymbolId) : ofPosition id.position = id := by
  simp [position, ofPosition]

end SymbolId

/-- The three truth values: built in, built as a module, left out. -/
inductive Tristate where
  | yes
  | mod
  | no
deriving DecidableEq

namespace Tristate

/-- The spelling in configuration files, in the model's JSON form and in the dump. -/
def letter : Tristate → String
  | yes => "y"
  | mod => "m"
  | no => "n"

/-- As a condition, `y` and `m` hold and `n` does not. -/
def isTrue : Tristate → Bool
  | yes | mod => true
  | no => false

end Tristate

/-- What a place that wants a symbol holds: a truth value or an entry of the table. -/
inductive SymbolRef where
  | truth (value : Tristate)
  | entry (id : SymbolId)
deriving DecidableEq

namespace SymbolRef

/-- The table entry, if the reference names one. -/
def entry? : SymbolRef → Option SymbolId
  | truth _ => none
  | entry id => some id

end SymbolRef

end Kconfig
