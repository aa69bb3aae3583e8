/-!
# Hexadecimal digits

Digits are read in either case and written in lower case.
-/

namespace Kconfig.Text.Hex

/-- The value of a digit. -/
def digit? (c : Char) : Option Nat :=
  if '0' ≤ c ∧ c ≤ '9' then some (c.toNat - '0'.toNat)
  else if 'a' ≤ c ∧ c ≤ 'f' then some (c.toNat - 'a'.toNat + 10)
  else if 'A' ≤ c ∧ c ≤ 'F' then some (c.toNat - 'A'.toNat + 10)
  else none

/-- The number that digits spell after those that made `n`. -/
def number? : (n : Nat) → List Char → Option Nat
  | n, [] => some n
  | n, c :: cs =>
    match digit? c with
    | some d => number? (16 * n + d) cs
    | none => none

/-- The digits of a number, without leading zeros. -/
def spell (n : Nat) : List Char :=
  Nat.toDigits 16 n

end Kconfig.Text.Hex
