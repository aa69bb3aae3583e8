import Kconfig.Expr.Basic

/-!
# Which operators bind tighter

From tightest to loosest: the ordering comparisons, equality and inequality, negation,
conjunction, disjunction, the separator of choice members. Symbols, ranges and unknown nodes are
atoms, which have no place in the order.

A child needs parentheses exactly where its parent binds tighter than it does.
-/

namespace Kconfig

/-- How two kinds of node compare by how tightly they bind. -/
inductive Precedence where
  /-- They bind alike. -/
  | equal
  /-- The first binds less tightly. -/
  | lower
  /-- The first binds more tightly. -/
  | higher
  /-- One of them is an atom. -/
  | incomparable
deriving DecidableEq

namespace ExprKind

/-- How tightly a kind binds its operands: higher is tighter, and atoms bind none. -/
def bindingPower : ExprKind → Option Nat
  | comparison op => some (if op.isOrdering then 5 else 4)
  | not => some 3
  | and => some 2
  | or => some 1
  | list => some 0
  | symbol | range | unknown => none

/-- Compares two kinds by binding power. -/
def precedence (a b : ExprKind) : Precedence :=
  match a.bindingPower, b.bindingPower with
  | some x, some y => if x = y then .equal else if x < y then .lower else .higher
  | _, _ => .incomparable

end ExprKind

/-- Whether a node of kind `child` is put in parentheses under `enclosing`, the kind of the node
around it. At the top of an expression there is none. -/
def needsParens (enclosing : Option ExprKind) (child : ExprKind) : Bool :=
  match enclosing with
  | none => false
  | some parent => parent.precedence child = .higher

end Kconfig
