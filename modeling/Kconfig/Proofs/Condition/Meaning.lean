import Kconfig.Proofs.Condition.Formula
import Kconfig.Proofs.Model.Resolution

/-!
# What a condition means

A condition holds or not, given the values of all names and quoted texts. `Printer.Holds` says so by
the expression itself, without any regard to how it is written. `Printer.formula` is what a reader
is to see: the same condition in the words of formulas, where comparisons with a truth value have
become tests. The two agree (`Printer.formula_holds`).
-/

namespace Kconfig

namespace Printer

variable (p : Printer) (v : Valuation)

/-- The value of a reference. The boolean dialect takes every written-out value for zero. -/
def refValue (sym : SymbolRef) : Int :=
  match p.model.classOf sym with
  | .truth b => truthValue b
  | .value name =>
    match p.dialect with
    | .boolean => 0
    | .logic => v.quoted name
  | .option name => v.name (identifier p.namePrefix name)

/-- Whether a comparison holds. Equality with a truth value is about truth, all other comparisons
are about values. What the boolean dialect cannot say counts as true. -/
def ComparisonHolds (op : Comparison) (left right : SymbolRef) : Prop :=
  if op.isOrdering then
    p.dialect = .boolean ∨ op.holds (p.refValue v left) (p.refValue v right)
  else
    match right with
    | .truth t => op.holds (truthValue (p.refValue v left ≠ 0)) (truthValue t.isTrue)
    | .entry _ => op.holds (p.refValue v left) (p.refValue v right)

/-- Whether a condition holds. A node whose operator is not known counts as true; expressions that
are no conditions have no say. -/
def Holds : Expr → Prop
  | .symbol sym => p.refValue v sym ≠ 0
  | .not e => ¬ Holds e
  | .compare op l r => p.ComparisonHolds v op l r
  | .and l r => Holds l ∧ Holds r
  | .or l r => Holds l ∨ Holds r
  | .unknown | .listLast _ | .listCons .. | .range .. => True

/-- What a reader is to see of a reference. -/
def atom (role : Role) (sym : SymbolRef) : Atom :=
  match p.model.classOf sym with
  | .truth b => .literal b
  | .value name =>
    match p.dialect with
    | .boolean => .literal false
    | .logic => .quoted name
  | .option name =>
    match p.dialect, role with
    | .boolean, .test => .defined (identifier p.namePrefix name)
    | _, _ => .name (identifier p.namePrefix name)

/-- What a reader is to see of a comparison. -/
def comparisonFormula (op : Comparison) (left right : SymbolRef) : Formula :=
  let values :=
    Formula.binary (.compare op) (.atom (p.atom .plain left)) (.atom (p.atom .plain right))
  if op.isOrdering then
    match p.dialect with
    | .logic => values
    | .boolean => .atom (.literal true)
  else
    match right with
    | .entry _ => values
    | .truth t =>
      if t.isTrue = (op = .equal) then .atom (p.atom .test left)
      else .not (.atom (p.atom .test left))

/-- What a reader is to see of a condition. -/
def formula : Expr → Formula
  | .symbol sym => .atom (p.atom .test sym)
  | .not e => .not (formula e)
  | .compare op l r => p.comparisonFormula op l r
  | .and l r => .join .and (formula l) (formula r)
  | .or l r => .join .or (formula l) (formula r)
  | .unknown | .listLast _ | .listCons .. | .range .. => .atom (.literal true)

/-- A side of a comparison has the value of its reference. -/
theorem value_atom_plain (sym : SymbolRef) : (p.atom .plain sym).value v = p.refValue v sym := by
  unfold atom refValue
  cases p.model.classOf sym with
  | truth b => rfl
  | value name => cases p.dialect <;> rfl
  | option name => cases p.dialect <;> rfl

/-- A test holds exactly where the value of its reference is true. -/
theorem value_atom_test (sym : SymbolRef) :
    (p.atom .test sym).value v ≠ 0 ↔ p.refValue v sym ≠ 0 := by
  unfold atom refValue
  cases p.model.classOf sym with
  | truth b => exact Iff.rfl
  | value name => cases p.dialect <;> exact Iff.rfl
  | option name =>
    cases p.dialect with
    | boolean => simp only [Atom.value, truthValue_ne_zero, decide_eq_true_eq]
    | logic => exact Iff.rfl

/-- Equality with a truth value is the test of the other side or its negation. -/
theorem holds_truth_iff {op : Comparison} (hop : ¬ op.isOrdering) (a b : Bool) :
    op.holds (truthValue a) (truthValue b) ↔ if b = (op = .equal) then a = true else a = false := by
  cases op <;> cases a <;> cases b <;> revert hop <;> decide

/-- The formula of a comparison is true just if the comparison holds. -/
theorem comparisonFormula_holds (op : Comparison) (l r : SymbolRef) :
    (p.comparisonFormula op l r).value v ≠ 0 ↔ p.ComparisonHolds v op l r := by
  unfold comparisonFormula ComparisonHolds
  by_cases hop : op.isOrdering
  · cases hd : p.dialect with
    | boolean => simp [hop, Formula.value, Atom.value, truthValue]
    | logic =>
      simp [hop, Formula.value, value_atom_plain, Operator.value, truthValue_ne_zero]
  · cases r with
    | entry id =>
      simp [hop, Formula.value, value_atom_plain, Operator.value, truthValue_ne_zero]
    | truth t =>
      simp only [if_neg hop, holds_truth_iff hop]
      split
      · simpa [Formula.value] using p.value_atom_test v l
      · rw [Formula.value_not_ne_zero]
        simpa [Formula.value] using not_congr (p.value_atom_test v l)

/-- What a reader is to see of a condition has the meaning of the condition. -/
theorem formula_holds (e : Expr) : (p.formula e).value v ≠ 0 ↔ p.Holds v e := by
  induction e with
  | symbol sym => exact p.value_atom_test v sym
  | not e ih =>
    rw [formula, Formula.value_not_ne_zero, Holds, ← ih]
    exact Decidable.not_not.symm
  | compare op l r => exact p.comparisonFormula_holds v op l r
  | and l r ihl ihr | or l r ihl ihr =>
    simp only [formula, Formula.value_join, Operator.value, truthValue_ne_zero, decide_eq_true_eq,
      Holds, ihl, ihr]
  | unknown | listLast | listCons | range =>
    simp [formula, Formula.value, Atom.value, truthValue, Holds]

end Printer

end Kconfig
