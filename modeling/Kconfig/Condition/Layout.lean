import Kconfig.Expr.Precedence

/-!
# The layout of conditions

A condition is written in one of two dialects: the `logic` dialect, with words for the connectives,
where every comparison can be said, and the `boolean` dialect of a preprocessor, which has no
ordering comparisons and asks whether an option is defined.

The layout of an expression is the sequence of its tokens. It depends on the expression and the
dialect alone: which parentheses there are, and which comparisons with a truth value become a bare
test of the other side. What a symbol is called is settled when its token is written.

Parentheses stand where the parent binds tighter (`needsParens`). In the boolean dialect `!` binds
tighter than `==` and `!=`, so a negated comparison of two symbols gets parentheses as well.
-/

namespace Kconfig

/-- The two ways of writing conditions. -/
inductive Dialect where
  | boolean
  | logic
deriving DecidableEq

/-- What a symbol does in a condition. -/
inductive Role where
  /-- It is the condition: does it hold? -/
  | test
  /-- It is a side of a comparison or range, or a member of a choice. -/
  | plain
deriving DecidableEq

/-- A token of a condition. -/
inductive Token where
  | operand (role : Role) (sym : SymbolRef)
  /-- A comparison that the dialect cannot say. -/
  | unsaid (op : Comparison)
  /-- A node whose operator is not known. -/
  | unknown
  | openParen
  | closeParen
  | not
  | and
  | or
  /-- The sign of an equality or inequality. -/
  | compare (op : Comparison)
  /-- The sign of an ordering comparison, by the kind of its node. -/
  | ordering (kind : ExprKind)
  /-- The blank after a member of a choice. -/
  | gap
  /-- The separator before the next member of a choice. -/
  | caret
  | openRange
  | rangeGap
  | closeRange
deriving DecidableEq

namespace Dialect

/-- A comparison of two symbols for equality, or a test of the one where the other is a truth
value. -/
def layoutEquality (op : Comparison) (left right : SymbolRef) : List Token :=
  match right with
  | .entry _ => [.operand .plain left, .compare op, .operand .plain right]
  | .truth t =>
    if t.isTrue = (op = .equal) then [.operand .test left] else [.not, .operand .test left]

/-- A comparison of two symbols. -/
def layoutComparison (d : Dialect) (op : Comparison) (left right : SymbolRef) : List Token :=
  if op.isOrdering then
    match d with
    | .logic => [.operand .plain left, .ordering (.comparison op), .operand .plain right]
    | .boolean => [.unsaid op]
  else layoutEquality op left right

/-- Whether `!` would take the left side of the expression and leave the rest. -/
def splitsUnderNot (d : Dialect) (e : Expr) : Bool :=
  match d, e with
  | .boolean, .compare op _ (.entry _) => !op.isOrdering
  | _, _ => false

/-- Puts tokens in parentheses where a node of the kind `child` needs them under `enclosing`, in
front of what follows. -/
def enclose (enclosing : Option ExprKind) (child : ExprKind) (tokens : List Token → List Token)
    (rest : List Token) : List Token :=
  if needsParens enclosing child then .openParen :: tokens (.closeParen :: rest) else tokens rest

/-- The tokens of an expression by itself, in front of what follows. -/
def layoutOnto (d : Dialect) : Expr → List Token → List Token
  | .symbol s, rest => .operand .test s :: rest
  | .not e, rest =>
    .not ::
      if d.splitsUnderNot e then .openParen :: d.layoutOnto e (.closeParen :: rest)
      else enclose (some .not) e.kind (d.layoutOnto e) rest
  | .compare op l r, rest => d.layoutComparison op l r ++ rest
  | .and l r, rest =>
    enclose (some .and) l.kind (d.layoutOnto l)
      (.and :: enclose (some .and) r.kind (d.layoutOnto r) rest)
  | .or l r, rest =>
    enclose (some .or) l.kind (d.layoutOnto l)
      (.or :: enclose (some .or) r.kind (d.layoutOnto r) rest)
  | .listLast member, rest => .operand .test member :: .gap :: rest
  | .listCons member tail, rest =>
    .operand .test member :: .gap :: .caret ::
      enclose (some .list) tail.kind (d.layoutOnto tail) rest
  | .range low high, rest =>
    .openRange :: .operand .plain low :: .rangeGap :: .operand .plain high :: .closeRange :: rest
  | .unknown, rest => .unknown :: rest

/-- The tokens of an expression under a node of the kind `enclosing`, if there is one. -/
def layout (d : Dialect) (enclosing : Option ExprKind) (e : Expr) : List Token :=
  enclose enclosing e.kind (d.layoutOnto e) []

/-- What follows the tokens of a child follows its parentheses, if it has any. -/
theorem enclose_append (enclosing : Option ExprKind) (child : ExprKind)
    {tokens : List Token → List Token}
    (h : ∀ a b, tokens (a ++ b) = tokens a ++ b) (a b : List Token) :
    enclose enclosing child tokens (a ++ b) = enclose enclosing child tokens a ++ b := by
  unfold enclose
  split
  · rw [← List.cons_append, h, List.cons_append]
  · exact h a b

/-- The tokens of an expression do not depend on what follows. -/
theorem layoutOnto_append (d : Dialect) (e : Expr) (a b : List Token) :
    d.layoutOnto e (a ++ b) = d.layoutOnto e a ++ b := by
  induction e generalizing a b with
  | symbol | compare | listLast | range | unknown => simp [layoutOnto]
  | not e ih =>
    simp only [layoutOnto, List.cons_append]
    split
    · rw [← List.cons_append, ih, List.cons_append]
    · rw [enclose_append _ _ ih]
  | and l r ihl ihr | or l r ihl ihr =>
    simp only [layoutOnto]
    rw [enclose_append _ _ ihr, ← List.cons_append, enclose_append _ _ ihl]
  | listCons member tail ih =>
    simp only [layoutOnto, List.cons_append]
    rw [enclose_append _ _ ih]

/-- The tokens of a child in front of what follows are those of `layout`, with `rest` behind them.
-/
theorem enclose_layoutOnto (d : Dialect) (enclosing : Option ExprKind) (e : Expr)
    (rest : List Token) :
    enclose enclosing e.kind (d.layoutOnto e) rest = d.layout enclosing e ++ rest :=
  enclose_append enclosing e.kind (d.layoutOnto_append e) [] rest

/-- Laying out in front of `rest` appends it to the tokens of the expression by itself. -/
theorem layoutOnto_eq (d : Dialect) (e : Expr) (rest : List Token) :
    d.layoutOnto e rest = d.layout none e ++ rest :=
  d.layoutOnto_append e [] rest

/-- Under a node, an expression is laid out as it is by itself, in parentheses where it needs
them. -/
theorem layout_eq_ite (d : Dialect) (enclosing : Option ExprKind) (e : Expr) :
    d.layout enclosing e =
      if needsParens enclosing e.kind then [.openParen] ++ d.layout none e ++ [.closeParen]
      else d.layout none e := by
  rw [layout, enclose, d.layoutOnto_eq, d.layoutOnto_eq]
  simp

/-- A symbol where a condition is expected is a test. -/
@[simp] theorem layout_symbol (d : Dialect) (s : SymbolRef) :
    d.layout none (.symbol s) = [.operand .test s] := rfl

/-- A negation stands before its operand, which has parentheses where it falls into two tests and
otherwise only those that its kind asks for. -/
@[simp] theorem layout_not (d : Dialect) (e : Expr) :
    d.layout none (.not e) =
      .not ::
        if d.splitsUnderNot e then [.openParen] ++ d.layout none e ++ [.closeParen]
        else d.layout (some .not) e := by
  rw [← List.append_nil (d.layout none _), ← layoutOnto_eq, layoutOnto, layoutOnto_eq,
    enclose_layoutOnto]
  simp

/-- A comparison by itself is laid out as its operator and its sides ask for. -/
@[simp] theorem layout_compare (d : Dialect) (op : Comparison) (l r : SymbolRef) :
    d.layout none (.compare op l r) = d.layoutComparison op l r :=
  List.append_nil _

/-- A conjunction stands between its two sides. -/
@[simp] theorem layout_and (d : Dialect) (l r : Expr) :
    d.layout none (.and l r) = d.layout (some .and) l ++ [.and] ++ d.layout (some .and) r := by
  rw [← List.append_nil (d.layout none _), ← layoutOnto_eq, layoutOnto, enclose_layoutOnto,
    enclose_layoutOnto]
  simp

/-- A disjunction stands between its two sides. -/
@[simp] theorem layout_or (d : Dialect) (l r : Expr) :
    d.layout none (.or l r) = d.layout (some .or) l ++ [.or] ++ d.layout (some .or) r := by
  rw [← List.append_nil (d.layout none _), ← layoutOnto_eq, layoutOnto, enclose_layoutOnto,
    enclose_layoutOnto]
  simp

/-- The last member of a chain has a gap behind it and no caret. -/
@[simp] theorem layout_listLast (d : Dialect) (member : SymbolRef) :
    d.layout none (.listLast member) = [.operand .test member, .gap] := rfl

/-- A member of a chain comes before a caret and the rest of the chain. -/
@[simp] theorem layout_listCons (d : Dialect) (member : SymbolRef) (tail : Expr) :
    d.layout none (.listCons member tail) =
      [.operand .test member, .gap, .caret] ++ d.layout (some .list) tail := by
  rw [← List.append_nil (d.layout none _), ← layoutOnto_eq, layoutOnto, enclose_layoutOnto]
  simp

/-- A range is its two bounds between brackets. -/
@[simp] theorem layout_range (d : Dialect) (low high : SymbolRef) :
    d.layout none (.range low high) =
      [.openRange, .operand .plain low, .rangeGap, .operand .plain high, .closeRange] := rfl

/-- An unknown node has one token, its placeholder. -/
@[simp] theorem layout_unknown (d : Dialect) : d.layout none .unknown = [.unknown] := rfl

end Dialect

end Kconfig
