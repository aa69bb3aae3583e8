import Kconfig.Json.Basic

/-!
# Records in JSON documents

A structure of named fields is written as an object or, more briefly, as the array of its fields in
their declared order, where fields at the end may be left off. In an object the order of members
is free and members of other names are passed over, but no declared field may be given twice and
every key must spell a text.
-/

namespace Kconfig.Json

/-- The fields of a record that a document gives. -/
abbrev Fields := List (String × Json)

/-- The members of an object under their texts, if every key spells one. -/
def spelled? : List (Spelling × Json) → Option Fields
  | [] => some []
  | (some key, value) :: members => (spelled? members).map ((key, value) :: ·)
  | (none, _) :: _ => none

/-- Reads a document as a record whose declared fields are `names`. -/
def fields? (names : List String) : Json → Option Fields
  | array items => if items.length ≤ names.length then some (names.zip items) else none
  | object members =>
    match spelled? members with
    | none => none
    | some members =>
      let own := members.filter fun (key, _) => names.contains key
      if (own.map Prod.fst).Nodup then some own else none
  | _ => none

namespace Fields

/-- A field that must be given. -/
def required {α : Type} (fields : Fields) (name : String) (read : Json → Option α) : Option α :=
  match fields.lookup name with
  | some value => read value
  | none => none

/-- A field with a value of its own for when it is not given. -/
def getD {α : Type} (fields : Fields) (name : String) (read : Json → Option α) (absent : α) :
    Option α :=
  match fields.lookup name with
  | some value => read value
  | none => some absent

/-- A field that may be absent, which `null` says too. -/
def optional {α : Type} (fields : Fields) (name : String) (read : Json → Option α) :
    Option (Option α) :=
  match fields.lookup name with
  | none => some none
  | some null => some none
  | some value => (read value).map some

end Fields

end Kconfig.Json
