import Kconfig.Json.Record

/-!
# Plain documents

A document that is written here is plain: its strings and keys spell texts, and its numbers are
natural numbers that fit a 64-bit word. Of a plain document only the depth decides whether its
values can be read (`Json.readable_of_isPlain`).
-/

namespace Kconfig

namespace Numeral

/-- Digits whose number fits a word are taken into it to the last. -/
theorem absorb_of_lt {digits : List Char} {word : Nat}
    (h : Nat.ofDigitChars 10 digits word < UInt64.size) (taken : Nat) :
    absorb word taken digits = (Nat.ofDigitChars 10 digits word, taken + digits.length, 0) := by
  induction digits generalizing word taken with
  | nil => rfl
  | cons c cs ih =>
    rw [Nat.ofDigitChars_cons] at h
    have hnext : 10 * word + (c.toNat - '0'.toNat) < UInt64.size := by
      refine Nat.lt_of_le_of_lt ?_ h
      rw [Nat.ofDigitChars_eq_ofDigitChars_zero]
      have hpow : 0 < 10 ^ cs.length := Nat.pow_pos (by decide)
      exact Nat.le_trans (Nat.le_mul_of_pos_left _ hpow) (Nat.le_add_right _ _)
    simp only [absorb, if_pos hnext, ih h, Nat.ofDigitChars_cons, List.length_cons]
    simp only [Nat.add_comm, Nat.add_left_comm]

/-- A natural number that fits a word is finite. -/
theorem isFinite_ofNat {n : Nat} (h : n < UInt64.size) : (ofNat n).isFinite := by
  have hdigits : Nat.ofDigitChars 10 (Nat.toDigits 10 n) 0 = n := Nat.ofDigitChars_ten_toDigits
  have hlt : Nat.ofDigitChars 10 (Nat.toDigits 10 n) 0 < UInt64.size := by rwa [hdigits]
  have habsorb := absorb_of_lt hlt 0
  simp [isFinite, ofNat, scale, habsorb, absorb]

end Numeral

namespace Json

mutual

/-- How deep arrays and objects stand in each other. -/
def depth : Json → Nat
  | null | bool _ | number _ | string _ => 0
  | array items => depthItems items + 1
  | object members => depthMembers members + 1

/-- The depth of the deepest of some items. -/
def depthItems : List Json → Nat
  | [] => 0
  | item :: items => max (depth item) (depthItems items)

/-- The depth of the deepest of some members. -/
def depthMembers : List (Spelling × Json) → Nat
  | [] => 0
  | (_, value) :: members => max (depth value) (depthMembers members)

end

/-- Items have room just if each of them has. -/
theorem depthItems_le_iff {items : List Json} {room : Nat} :
    depthItems items ≤ room ↔ ∀ item ∈ items, item.depth ≤ room := by
  induction items with
  | nil => simp [depthItems]
  | cons item items ih => rw [depthItems, Nat.max_le, ih, List.forall_mem_cons]

/-- Members have room just if the value of each of them has. -/
theorem depthMembers_le_iff {members : List (Spelling × Json)} {room : Nat} :
    depthMembers members ≤ room ↔ ∀ member ∈ members, member.2.depth ≤ room := by
  induction members with
  | nil => simp [depthMembers]
  | cons member members ih => rw [depthMembers, Nat.max_le, ih, List.forall_mem_cons]

/-- An array needs one level more than its items. -/
theorem depth_array_le_iff {items : List Json} {room : Nat} :
    (array items).depth ≤ room + 1 ↔ ∀ item ∈ items, item.depth ≤ room := by
  rw [depth, Nat.add_le_add_iff_right, depthItems_le_iff]

/-- An object needs one level more than its members. -/
theorem depth_object_le_iff {members : List (Spelling × Json)} {room : Nat} :
    (object members).depth ≤ room + 1 ↔ ∀ member ∈ members, member.2.depth ≤ room := by
  rw [depth, Nat.add_le_add_iff_right, depthMembers_le_iff]

/-- An object made of named members needs one level more than these. -/
theorem depth_ofMembers_le_iff {members : List (String × Json)} {room : Nat} :
    (ofMembers members).depth ≤ room + 1 ↔ ∀ member ∈ members, member.2.depth ≤ room := by
  unfold ofMembers
  rw [depth_object_le_iff, List.forall_mem_map]

/-- A document without strings that spell no text, and with no numbers but natural ones. -/
inductive IsPlain : Json → Prop where
  | null : IsPlain null
  | bool (b : Bool) : IsPlain (bool b)
  | nat {n : Nat} (h : n < UInt64.size) : IsPlain (nat n)
  | text (s : String) : IsPlain (text s)
  | array {items : List Json} (h : ∀ item ∈ items, IsPlain item) : IsPlain (array items)
  | ofMembers {members : List (String × Json)} (h : ∀ member ∈ members, IsPlain member.2) :
    IsPlain (ofMembers members)

/-- Plain documents can be read as far as there is room. -/
theorem readable_of_isPlain {j : Json} (h : j.IsPlain) {room : Nat} (hroom : j.depth ≤ room) :
    j.readable room := by
  induction h generalizing room with
  | null => cases room <;> rfl
  | bool b => cases room <;> rfl
  | nat h => cases room <;> exact Numeral.isFinite_ofNat h
  | text s => cases room <;> rfl
  | array h ih =>
    cases room with
    | zero => exact absurd hroom (Nat.not_succ_le_zero _)
    | succ room =>
      rw [depth_array_le_iff] at hroom
      rw [readable, List.all_eq_true]
      intro item hitem
      exact ih item hitem (hroom item hitem)
  | ofMembers h ih =>
    cases room with
    | zero => exact absurd hroom (Nat.not_succ_le_zero _)
    | succ room =>
      rw [depth_ofMembers_le_iff] at hroom
      simp only [Json.ofMembers, readable, List.all_map, List.all_eq_true, Function.comp_apply,
        Option.isSome_some, Bool.true_and]
      intro member hmember
      exact ih member hmember (hroom member hmember)

end Json

end Kconfig
