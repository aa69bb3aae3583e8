import Kconfig.Json.Numeral

/-!
# JSON documents

A document as it is written: members in their order, repeated keys and all, numbers by their
digits. A string literal may spell no text, where it holds half of a surrogate pair or bytes that
are not UTF-8. That is no fault of the document's form; it is one where the string is read
(`Json.readable`).
-/

namespace Kconfig

/-- What a string literal spells: a text, or nothing that is one. -/
abbrev Spelling := Option String

/-- A JSON document. -/
inductive Json where
  | null
  | bool (value : Bool)
  | number (value : Numeral)
  | string (value : Spelling)
  | array (items : List Json)
  | object (members : List (Spelling × Json))

namespace Json

/-- The object with the given members. -/
def ofMembers (members : List (String × Json)) : Json :=
  object (members.map fun (key, value) => (some key, value))

/-- The literal of a text. -/
def text (s : String) : Json :=
  string (some s)

/-- The literal of a natural number. -/
def nat (n : Nat) : Json :=
  number (Numeral.ofNat n)

/-- Whether all of a document can be read for its values: every string spells a text, every number
is finite, and at most `room` arrays and objects stand inside each other. -/
def readable : (room : Nat) → Json → Bool
  | _, null => true
  | _, bool _ => true
  | _, number n => n.isFinite
  | _, string s => s.isSome
  | 0, array _ => false
  | 0, object _ => false
  | room + 1, array items => items.all (readable room)
  | room + 1, object members => members.all fun (key, value) => key.isSome && readable room value

end Json

end Kconfig
