import Kconfig.Condition.Printer

/-!
# Formulas: what the readers of conditions see

A condition that was written is read by programs that know nothing of symbol tables. To them it is
a formula over names. A name has an integer for its value, truth is any value but zero, and the
connectives and comparisons give one for true and zero for false, as in the language of a
preprocessor.

`Formula.join` puts two formulas together so that a chain of one connective always leans to the
left. Formulas built by it are formulas up to associativity (`Formula.join_assoc`), and their values
are those of the plain operators (`Formula.value_join`).
-/

namespace Kconfig

/-- What stands for a value by itself. -/
inductive Atom where
  | literal (value : Bool)
  /-- The value of a name. -/
  | name (identifier : String)
  /-- The value of a quoted text. -/
  | quoted (text : String)
  /-- Whether a name has a value that is true. -/
  | defined (identifier : String)
deriving DecidableEq

/-- The values of all names and of all quoted texts. -/
structure Valuation where
  name : String → Int
  quoted : String → Int

/-- Truth as a value. -/
def truthValue (b : Bool) : Int :=
  if b then 1 else 0

/-- The value of a truth value is not 0 just if it is true. -/
theorem truthValue_ne_zero (b : Bool) : truthValue b ≠ 0 ↔ b = true := by
  cases b <;> decide

/-- Whether a comparison holds between two values. -/
def Comparison.holds (op : Comparison) (x y : Int) : Bool :=
  match op with
  | equal => x = y
  | unequal => x ≠ y
  | less => x < y
  | lessEqual => x ≤ y
  | greater => y < x
  | greaterEqual => y ≤ x

/-- The value of an atom. -/
def Atom.value (v : Valuation) : Atom → Int
  | literal b => truthValue b
  | name x => v.name x
  | quoted x => v.quoted x
  | defined x => truthValue (v.name x ≠ 0)

/-- An operator between two operands. -/
inductive Operator where
  | compare (op : Comparison)
  | and
  | or
deriving DecidableEq

/-- A condition as it is read. -/
inductive Formula where
  | atom (a : Atom)
  | not (f : Formula)
  | binary (op : Operator) (f g : Formula)
deriving DecidableEq

/-- The value of an operator between two values. -/
def Operator.value (op : Operator) (x y : Int) : Int :=
  match op with
  | compare op => truthValue (op.holds x y)
  | and => truthValue (x ≠ 0 ∧ y ≠ 0)
  | or => truthValue (x ≠ 0 ∨ y ≠ 0)

/-- Whether an operator makes chains: comparisons do not. -/
def Operator.isConnective : Operator → Bool
  | compare _ => false
  | and | or => true

/-- The connectives are associative. -/
theorem Operator.value_assoc {op : Operator} (hop : op.isConnective) (x y z : Int) :
    op.value (op.value x y) z = op.value x (op.value y z) := by
  cases op with
  | compare op => cases hop
  | and => simp only [value, truthValue_ne_zero, decide_eq_true_eq, and_assoc]
  | or => simp only [value, truthValue_ne_zero, decide_eq_true_eq, or_assoc]

namespace Formula

/-- The value of a formula. -/
def value (v : Valuation) : Formula → Int
  | atom a => a.value v
  | not f => truthValue (f.value v = 0)
  | binary op f g => op.value (f.value v) (g.value v)

/-- A negation holds where what it negates does not. -/
theorem value_not_ne_zero (v : Valuation) (f : Formula) : (not f).value v ≠ 0 ↔ f.value v = 0 := by
  simp only [value, truthValue_ne_zero, decide_eq_true_eq]

/-! ## Chains that lean to the left -/

/-- Puts two formulas together by an operator. Where the second is a chain of the same connective,
its links follow the first one by one. -/
def join (op : Operator) (f : Formula) : Formula → Formula
  | binary op' g h =>
    if op' = op ∧ op.isConnective then binary op (join op f g) h
    else binary op f (binary op' g h)
  | g => binary op f g

/-- Regrouping a chain of one connective is putting the same formula together. -/
theorem join_assoc {op : Operator} (hop : op.isConnective) (f g h : Formula) :
    join op (join op f g) h = join op f (join op g h) := by
  induction h with
  | atom a => simp [join, hop]
  | not h => simp [join, hop]
  | binary op' h₁ h₂ ih₁ _ =>
    by_cases h' : op' = op
    · simp [join, hop, h', ih₁]
    · simp [join, hop, h']

/-- Putting a formula under an operator, as `join` regroups it, has the value of the operator. -/
theorem value_join (v : Valuation) (op : Operator) (f g : Formula) :
    (join op f g).value v = op.value (f.value v) (g.value v) := by
  induction g with
  | atom a => rfl
  | not g => rfl
  | binary op' g h ihg _ =>
    by_cases h' : op' = op ∧ op.isConnective
    · rw [join, if_pos h', value, ihg, value, h'.1]
      exact Operator.value_assoc h'.2 (f.value v) (g.value v) (h.value v)
    · rw [join, if_neg h', value]

end Formula

end Kconfig
