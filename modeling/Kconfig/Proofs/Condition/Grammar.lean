import Kconfig.Proofs.Condition.Scanner

/-!
# How conditions are read

A reader of either dialect knows how tightly each operator binds, and no more: operators of one
level lean to the left, and parentheses stand around what is read first. The dialects differ in
the level of the negation. In the logic dialect it binds less tightly than the comparisons, in the
boolean dialect more tightly than everything between two operands (`Dialect.notPower`).

The reader is a machine over lexemes. It keeps the operators that wait for their right operand,
and the parentheses that are open, as a stack of holes. Where an operator follows an operand, the
holes on top that bind at least as tightly are filled first (`settle`).
-/

namespace Kconfig

/-- How tightly an operator binds. -/
def Operator.power : Operator → Nat
  | compare op => if op.isOrdering then 5 else 4
  | and => 2
  | or => 1

/-- How tightly the negation binds. -/
def Dialect.notPower : Dialect → Nat
  | boolean => 6
  | logic => 3

/-- Something that waits for what is read next. -/
inductive Hole where
  | paren
  | not
  /-- An operator and its left operand. -/
  | after (op : Operator) (f : Formula)

/-- What the reader has read, and what may come next. -/
inductive Reading where
  /-- An operand must come. -/
  | operand (holes : List Hole)
  /-- After `(defined`: a name must come. -/
  | asked (holes : List Hole)
  /-- After that name: a closing parenthesis must come. -/
  | named (name : String) (holes : List Hole)
  /-- After an operand: an operator, a closing parenthesis or the end. -/
  | complete (f : Formula) (holes : List Hole)

namespace Reading

/-- How tightly the hole on top binds. -/
def topPower (d : Dialect) : List Hole → Nat
  | [] | .paren :: _ => 0
  | .not :: _ => d.notPower
  | .after op _ :: _ => op.power

/-- Fills the holes on top that bind at least as tightly as `power`, down to the innermost open
parenthesis. -/
def settle (d : Dialect) (power : Nat) : Formula → List Hole → Formula × List Hole
  | f, .not :: holes =>
    if power ≤ d.notPower then settle d power (.not f) holes else (f, .not :: holes)
  | f, .after op g :: holes =>
    if power ≤ op.power then settle d power (.join op g f) holes else (f, .after op g :: holes)
  | f, holes => (f, holes)

/-- One lexeme. A negation may come only where what waits for it binds no more tightly. -/
def step (d : Dialect) : Reading → Lexeme → Option Reading
  | operand holes, .operand a => some (complete (.atom a) holes)
  | operand holes, .openParen => some (operand (.paren :: holes))
  | operand holes, .not =>
    if topPower d holes ≤ d.notPower then some (operand (.not :: holes)) else none
  | operand (.paren :: holes), .defined => some (asked holes)
  | asked holes, .operand (.name x) => some (named x holes)
  | named x holes, .closeParen => some (complete (.atom (.defined x)) holes)
  | complete f holes, .operator op =>
    let (f, holes) := settle d op.power f holes
    some (operand (.after op f :: holes))
  | complete f holes, .closeParen =>
    match settle d 0 f holes with
    | (f, .paren :: holes) => some (complete f holes)
    | _ => none
  | _, _ => none

/-- What was read, where it may end. -/
def formula? (d : Dialect) : Reading → Option Formula
  | complete f holes =>
    match settle d 0 f holes with
    | (f, []) => some f
    | _ => none
  | _ => none

/-- Reads lexemes to their end. -/
def read (d : Dialect) (r : Reading) (ls : List Lexeme) : Option Formula :=
  (ls.foldlM (step d) r).bind (formula? d)

/-- Where no lexeme is left, the formula is what has been read. -/
theorem read_nil (d : Dialect) (r : Reading) : read d r [] = formula? d r := rfl

/-- A lexeme is read by one step, and what is left from there. -/
theorem read_cons (d : Dialect) (r : Reading) (l : Lexeme) (ls : List Lexeme) :
    read d r (l :: ls) = (step d r l).bind fun r' => read d r' ls := by
  unfold read
  rw [List.foldlM_cons]
  exact Option.bind_assoc ..

/-- Filling holes down to a level and then further is filling them further. -/
theorem settle_settle (d : Dialect) {p q : Nat} (hpq : p ≤ q) (f : Formula) (holes : List Hole) :
    settle d p (settle d q f holes).1 (settle d q f holes).2 = settle d p f holes := by
  induction holes generalizing f with
  | nil => rfl
  | cons hole holes ih =>
    cases hole with
    | paren => rfl
    | not =>
      by_cases hq : q ≤ d.notPower
      · have hp : p ≤ d.notPower := Nat.le_trans hpq hq
        simp only [settle, if_pos hq, if_pos hp, ih]
      · simp only [settle, if_neg hq]
    | after op g =>
      by_cases hq : q ≤ op.power
      · have hp : p ≤ op.power := Nat.le_trans hpq hq
        simp only [settle, if_pos hq, if_pos hp, ih]
      · simp only [settle, if_neg hq]

/-- Holes that bind less tightly stay. -/
theorem settle_eq_self {d : Dialect} {p : Nat} {holes : List Hole} (h : topPower d holes < p)
    (f : Formula) : settle d p f holes = (f, holes) := by
  match holes with
  | [] => rfl
  | .paren :: holes => rfl
  | .not :: holes =>
    have hp : ¬ p ≤ d.notPower := Nat.not_le.mpr h
    rw [settle, if_neg hp]
  | .after op g :: holes =>
    have hp : ¬ p ≤ op.power := Nat.not_le.mpr h
    rw [settle, if_neg hp]

/-- What may follow an operand that binds its parts as tightly as `power`: the end, a closing
parenthesis, or an operator that binds no more tightly. -/
def Follows (power : Nat) : List Lexeme → Prop
  | [] | .closeParen :: _ => True
  | .operator op :: _ => op.power ≤ power
  | _ => False

/-- Where two readers have the same formula and holes once they are settled, they read on alike. -/
theorem read_complete_congr {d : Dialect} {p : Nat} {f g : Formula} {fs gs : List Hole}
    (h : settle d p f fs = settle d p g gs) {ls : List Lexeme} (hls : Follows p ls) :
    read d (complete f fs) ls = read d (complete g gs) ls := by
  have settled : ∀ q ≤ p, settle d q f fs = settle d q g gs := by
    intro q hq
    rw [← settle_settle d hq f fs, h, settle_settle d hq g gs]
  match ls, hls with
  | [], _ => simp only [read_nil, formula?, settled 0 (Nat.zero_le p)]
  | .closeParen :: ls, _ => simp only [read_cons, step, settled 0 (Nat.zero_le p)]
  | .operator op :: ls, hop => simp only [read_cons, step, settled op.power hop]

end Reading

/-- Reads the text of a condition in a dialect. -/
def Formula.ofText? (d : Dialect) (text : String) : Option Formula :=
  (lexemes? d text).bind (Reading.read d (.operand []))

end Kconfig
