/-!
# Numbers as they are written

A JSON number is kept as its digits, because what a number is good for depends on how it is
written: an id is a number without sign, fraction and exponent, whatever its value.

Where a document is read for its values, a number must also lie within the range of a binary
double (`Numeral.isFinite`). The rule looks at the leading digits that fit a 64-bit word, scaled by
a power of ten, with the word, the power and their product each rounded to 53 bits: it refuses what
this arithmetic takes to infinity.
-/

namespace Kconfig

/-- A number literal. Digit sequences are kept with the last digit first. -/
structure Numeral where
  negative : Bool := false
  /-- The digits before the point, the last one first. -/
  whole : List Char
  /-- The digits after the point, the last one first, if there is a point. -/
  fraction : Option (List Char) := none
  /-- The sign and the digits of the exponent, the last one first, if there is an exponent. -/
  exponent : Option (Bool × List Char) := none

namespace Numeral

/-- The literal of a natural number: its decimal digits. -/
def ofNat (n : Nat) : Numeral :=
  { whole := (Nat.toDigits 10 n).reverse }

/-- The number, if the literal has neither sign nor fraction nor exponent. -/
def toNat? (n : Numeral) : Option Nat :=
  match n with
  | { negative := false, whole := digits, fraction := none, exponent := none } =>
    some (Nat.ofDigitChars 10 digits.reverse 0)
  | _ => none

/-- Reading back the literal of a natural number. -/
@[simp] theorem toNat?_ofNat (n : Nat) : (ofNat n).toNat? = some n := by
  simp [ofNat, toNat?, Nat.ofDigitChars_toDigits]

/-- Takes digits into a word as long as the word stays below `2 ^ 64`: the word, how many digits it
took, and how many are left. -/
def absorb : Nat → Nat → List Char → Nat × Nat × Nat
  | word, taken, [] => (word, taken, 0)
  | word, taken, c :: cs =>
    let next := 10 * word + (c.toNat - '0'.toNat)
    if next < UInt64.size then absorb next (taken + 1) cs else (word, taken, cs.length + 1)

/-- A number rounded to its 53 leading bits, to the even neighbour where both are equally near. -/
def round53 (n : Nat) : Nat :=
  let unit := 1 <<< (n.log2 + 1 - 53)
  let quotient := n / unit
  let rest := n % unit
  if 2 * rest < unit ∨ (2 * rest = unit ∧ quotient % 2 = 0) then quotient * unit
  else (quotient + 1) * unit

/-- The power of ten by which the leading digits are scaled. -/
def scale (n : Numeral) (left taken : Nat) : Int :=
  let shift : Int := left - taken
  match n.exponent with
  | none => shift
  | some (false, digits) => shift + Nat.ofDigitChars 10 digits.reverse 0
  | some (true, digits) => shift - Nat.ofDigitChars 10 digits.reverse 0

/-- Whether the number lies within the range of a binary double. -/
def isFinite (n : Numeral) : Bool :=
  let (whole, _, left) := absorb 0 0 n.whole.reverse
  let (word, taken, _) := absorb whole 0 (n.fraction.getD []).reverse
  let power := n.scale left taken
  if word = 0 ∨ power ≤ 0 then true
  else if 308 < power then false
  else round53 word * round53 (Nat.pow 10 power.toNat) < (1 <<< 1024) - (1 <<< 970)

/-- The characters of the literal. -/
def spell (n : Numeral) : List Char :=
  (if n.negative then ['-'] else []) ++ n.whole.reverse ++
    (match n.fraction with
      | some digits => '.' :: digits.reverse
      | none => []) ++
    (match n.exponent with
      | some (true, digits) => 'e' :: '-' :: digits.reverse
      | some (false, digits) => 'e' :: digits.reverse
      | none => [])

end Numeral

end Kconfig
