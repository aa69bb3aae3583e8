import Kconfig.Reference

/-!
# Conditions and values

Dependencies, visibilities, default values and choice members are all expressions. Comparisons
and ranges take symbols, the connectives take expressions, and a choice's members are a chain
`a ^ (b ^ (c))`, whose last link has no successor. A node whose operator is not known is kept as
`unknown`: each way of writing an expression has its own rule for it.

A chain is two constructors, one for the last link and one for a link with a successor, so that
recursion on expressions needs no list or option inside the type. The successor of a link may be
any expression: a table can be read whose chains end in something else.
-/

namespace Kconfig

/-- How two symbols are compared. -/
inductive Comparison where
  | equal
  | unequal
  | less
  | lessEqual
  | greater
  | greaterEqual
deriving DecidableEq

namespace Comparison

/-- Whether the comparison asks for an order, and not only for equality. -/
def isOrdering : Comparison → Bool
  | equal | unequal => false
  | less | lessEqual | greater | greaterEqual => true

/-- The name by which messages call the comparison. -/
def label : Comparison → String
  | equal => "Equal"
  | unequal => "Unequal"
  | less => "Less"
  | lessEqual => "LessEqual"
  | greater => "Greater"
  | greaterEqual => "GreaterEqual"

end Comparison

/-- An expression over the symbols of a model. -/
inductive Expr where
  /-- A symbol, as a condition or as a value. -/
  | symbol (sym : SymbolRef)
  | not (operand : Expr)
  | compare (op : Comparison) (left right : SymbolRef)
  | and (left right : Expr)
  | or (left right : Expr)
  /-- The last link of a chain of choice members. -/
  | listLast (member : SymbolRef)
  /-- A link of a chain of choice members, and what follows it. -/
  | listCons (member : SymbolRef) (rest : Expr)
  | range (low high : SymbolRef)
  /-- A node whose operator is not known. -/
  | unknown
deriving DecidableEq

/-- What an expression is at its root. Precedence is a relation between kinds. -/
inductive ExprKind where
  | symbol
  | not
  | comparison (op : Comparison)
  | and
  | or
  | list
  | range
  | unknown
deriving DecidableEq

namespace Expr

/-- The kind of the root. -/
def kind : Expr → ExprKind
  | symbol _ => .symbol
  | not _ => .not
  | compare op _ _ => .comparison op
  | and _ _ => .and
  | or _ _ => .or
  | listLast _ => .list
  | listCons _ _ => .list
  | range _ _ => .range
  | unknown => .unknown

/-- The leaf `y`. -/
def yes : Expr :=
  symbol (.truth .yes)

/-- The leaf `y`, and no other expression however true. -/
def isYes : Expr → Bool
  | symbol (.truth .yes) => true
  | _ => false

/-- The leaf `m`, and no other expression. -/
def isMod : Expr → Bool
  | symbol (.truth .mod) => true
  | _ => false

/-- The chain of the given members, in their order. A chain has at least one member. -/
def chain? : List SymbolRef → Option Expr
  | [] => none
  | a :: rest =>
    match chain? rest with
    | none => some (listLast a)
    | some tail => some (listCons a tail)

/-- The members of a chain, up to the first successor that is not a link. -/
def members : Expr → List SymbolRef
  | listLast a => [a]
  | listCons a rest => a :: rest.members
  | _ => []

/-- The symbols that the expression refers to, in front of more. -/
def refsOnto : Expr → List SymbolRef → List SymbolRef
  | symbol s, rest => s :: rest
  | not e, rest => e.refsOnto rest
  | compare _ l r, rest => l :: r :: rest
  | and l r, rest => l.refsOnto (r.refsOnto rest)
  | or l r, rest => l.refsOnto (r.refsOnto rest)
  | listLast a, rest => a :: rest
  | listCons a tail, rest => a :: tail.refsOnto rest
  | range low high, rest => low :: high :: rest
  | unknown, rest => rest

/-- Every symbol that the expression refers to, from left to right, as often as it does. -/
def refs (e : Expr) : List SymbolRef :=
  e.refsOnto []

/-- What follows the references of an expression is left as it is. -/
theorem refsOnto_append (e : Expr) (a b : List SymbolRef) :
    e.refsOnto (a ++ b) = e.refsOnto a ++ b := by
  induction e generalizing a b with
  | symbol | compare | listLast | range | unknown => simp [refsOnto]
  | not e ih => exact ih a b
  | and l r ihl ihr | or l r ihl ihr => simp only [refsOnto, ihl, ihr]
  | listCons a tail ih => simp only [refsOnto, ih, List.cons_append]

/-- Collecting references in front of `rest` appends it to those of the expression. -/
theorem refsOnto_eq (e : Expr) (rest : List SymbolRef) : e.refsOnto rest = e.refs ++ rest :=
  e.refsOnto_append [] rest

/-- A symbol refers to itself. -/
@[simp] theorem refs_symbol (s : SymbolRef) : (symbol s).refs = [s] := rfl

/-- A negation refers to what its operand refers to. -/
@[simp] theorem refs_not (e : Expr) : (not e).refs = e.refs := rfl

/-- A comparison refers to its two sides. -/
@[simp] theorem refs_compare (op : Comparison) (l r : SymbolRef) :
    (compare op l r).refs = [l, r] := rfl

/-- A conjunction refers to what its left side does, then to what its right side does. -/
@[simp] theorem refs_and (l r : Expr) : (and l r).refs = l.refs ++ r.refs :=
  l.refsOnto_eq r.refs

/-- A disjunction refers to what its left side does, then to what its right side does. -/
@[simp] theorem refs_or (l r : Expr) : (or l r).refs = l.refs ++ r.refs :=
  l.refsOnto_eq r.refs

/-- The last member of a chain is a reference. -/
@[simp] theorem refs_listLast (a : SymbolRef) : (listLast a).refs = [a] := rfl

/-- A chain refers to its members in their order. -/
@[simp] theorem refs_listCons (a : SymbolRef) (tail : Expr) :
    (listCons a tail).refs = a :: tail.refs := rfl

/-- A range refers to its two bounds. -/
@[simp] theorem refs_range (low high : SymbolRef) : (range low high).refs = [low, high] := rfl

/-- An unknown node refers to nothing. -/
@[simp] theorem refs_unknown : unknown.refs = [] := rfl

end Expr

/-- Whether a condition holds by its form alone: it is absent or it is the leaf `y`. No
equivalence of expressions is tried, so `y || n` is no tautology. -/
def isTautology : Option Expr → Bool
  | none => true
  | some e => e.isYes

end Kconfig
