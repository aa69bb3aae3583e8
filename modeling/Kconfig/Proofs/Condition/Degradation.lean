import Kconfig.Proofs.Condition.Spelling
import Kconfig.Proofs.Model.Soundness

/-!
# What is said about a condition that cannot be said

Two kinds of nodes are written as `1` because there is nothing else to write: those whose operator
is not known and, in the boolean dialect, ordering comparisons. Each is reported, in the order in
which the nodes stand, and nothing else is (`Printer.messages_render`). So whoever is told nothing
can rely on what was written.

Nodes are listed in pre-order. The nodes in question have none below them, so this is their order
from left to right.
-/

namespace Kconfig

namespace Expr

/-- The nodes of an expression, each in front of those below it, from left to right. -/
def nodes : Expr → List Expr
  | not e => not e :: e.nodes
  | and l r => and l r :: (l.nodes ++ r.nodes)
  | or l r => or l r :: (l.nodes ++ r.nodes)
  | listCons a tail => listCons a tail :: tail.nodes
  | symbol s => [symbol s]
  | compare op l r => [compare op l r]
  | listLast a => [listLast a]
  | range low high => [range low high]
  | unknown => [unknown]

end Expr

namespace Dialect

/-- The message for a node that the dialect cannot say. -/
def placeholder? (d : Dialect) : Expr → Option Diagnostic
  | .unknown => some .unknownReplaced
  | .compare op _ _ =>
    if d = .boolean ∧ op.isOrdering then some (.comparisonReplaced op) else none
  | _ => none

/-- The messages for the nodes of an expression that the dialect cannot say. -/
def placeholders (d : Dialect) (e : Expr) : List Diagnostic :=
  e.nodes.filterMap d.placeholder?

variable {d : Dialect}

/-- Whoever is told of a placeholder is warned. -/
theorem level_placeholder {e : Expr} {message : Diagnostic} (h : d.placeholder? e = some message) :
    message.level = .warn := by
  cases e with
  | unknown =>
    obtain rfl := Option.some.inj h
    rfl
  | compare op l r =>
    obtain ⟨-, h⟩ := Option.ite_none_right_eq_some.mp h
    obtain rfl := Option.some.inj h
    rfl
  | symbol | not | and | or | listLast | listCons | range => cases h

/-- The messages for a negation are those for its operand. -/
@[simp] theorem placeholders_not (d : Dialect) (e : Expr) :
    d.placeholders (.not e) = d.placeholders e := rfl

/-- The messages for a conjunction are those for its sides, from left to right. -/
@[simp] theorem placeholders_and (d : Dialect) (l r : Expr) :
    d.placeholders (.and l r) = d.placeholders l ++ d.placeholders r :=
  List.filterMap_append

/-- The messages for a disjunction are those for its sides, from left to right. -/
@[simp] theorem placeholders_or (d : Dialect) (l r : Expr) :
    d.placeholders (.or l r) = d.placeholders l ++ d.placeholders r :=
  List.filterMap_append

/-- The messages for a chain are those for its rest, since a member can always be said. -/
@[simp] theorem placeholders_listCons (d : Dialect) (a : SymbolRef) (tail : Expr) :
    d.placeholders (.listCons a tail) = d.placeholders tail := rfl

/-- No message is about parentheses. -/
theorem notes_layout_of_none {e : Expr} {notes : List Diagnostic}
    (h : (d.layout none e).filterMap Token.note? = notes) (enclosing : Option ExprKind) :
    (d.layout enclosing e).filterMap Token.note? = notes := by
  rw [layout_eq_ite]
  split
  · rw [List.filterMap_append, List.filterMap_append, h]
    exact List.append_nil _
  · exact h

/-- Every comparison for equality can be said. -/
theorem notes_layoutEquality (op : Comparison) (l r : SymbolRef) :
    (layoutEquality op l r).filterMap Token.note? = [] := by
  cases r with
  | entry id => rfl
  | truth t =>
    unfold layoutEquality
    simp only
    split <;> rfl

/-- The tokens of a comparison carry the message for it, if it is replaced. -/
theorem notes_layoutComparison (d : Dialect) (op : Comparison) (l r : SymbolRef) :
    (d.layoutComparison op l r).filterMap Token.note? = d.placeholders (.compare op l r) := by
  unfold layoutComparison placeholders
  by_cases hop : op.isOrdering
  · cases d <;> simp [hop, Expr.nodes, placeholder?, Token.note?]
  · rw [if_neg hop, notes_layoutEquality]
    simp [hop, Expr.nodes, placeholder?]

/-- The tokens that stand for what cannot be said are in the order of the nodes. -/
theorem notes_layout (d : Dialect) (enclosing : Option ExprKind) (e : Expr) :
    (d.layout enclosing e).filterMap Token.note? = d.placeholders e := by
  apply notes_layout_of_none
  induction e with
  | symbol | listLast | range | unknown => rfl
  | not e ih =>
    -- a negation writes its operand in one of two ways, with the same tokens inside
    rw [layout_not, placeholders_not]
    split
    · rw [List.filterMap_cons_none rfl, List.filterMap_append, List.filterMap_append, ih]
      exact List.append_nil _
    · exact notes_layout_of_none ih (some .not)
  | compare op l r =>
    rw [layout_compare]
    exact notes_layoutComparison d op l r
  | and l r ihl ihr =>
    rw [layout_and, List.filterMap_append, List.filterMap_append, notes_layout_of_none ihl,
      notes_layout_of_none ihr, placeholders_and]
    exact congrArg (· ++ _) (List.append_nil _)
  | or l r ihl ihr =>
    rw [layout_or, List.filterMap_append, List.filterMap_append, notes_layout_of_none ihl,
      notes_layout_of_none ihr, placeholders_or]
    exact congrArg (· ++ _) (List.append_nil _)
  | listCons a tail ih =>
    rw [layout_listCons, List.filterMap_append, notes_layout_of_none ih, placeholders_listCons]
    rfl

/-- The logic dialect can say every node but those whose operator is not known. -/
theorem mem_placeholders_logic_iff {e : Expr} {message : Diagnostic} :
    message ∈ logic.placeholders e ↔ message = .unknownReplaced ∧ .unknown ∈ e.nodes := by
  unfold placeholders
  rw [List.mem_filterMap]
  constructor
  · rintro ⟨node, hnode, hmessage⟩
    cases node with
    | unknown => exact ⟨(Option.some.inj hmessage).symm, hnode⟩
    | compare op l r => simp [placeholder?] at hmessage
    | symbol | not | and | or | listLast | listCons | range => cases hmessage
  · rintro ⟨rfl, hunknown⟩
    exact ⟨.unknown, hunknown, rfl⟩

end Dialect

namespace Printer

/-- While an expression is put into text, the nodes that cannot be said are reported in their order,
and nothing else is said. -/
theorem messages_render (p : Printer) (enclosing : Option ExprKind) {e : Expr}
    (h : p.model.ResolvesAll e) : (p.render enclosing e).messages = p.dialect.placeholders e := by
  rw [p.render_of_resolves enclosing h, ← p.dialect.notes_layout enclosing e]
  unfold Run.messages
  rw [List.filterMap_flatMap, List.filterMap_eq_flatMap_toList]
  apply List.flatMap_congr
  intro t _
  cases t.note? <;> rfl

/-- A condition that is absent has nothing that could not be said. -/
theorem messages_condition (p : Printer) {e : Option Expr}
    (h : ∀ e' ∈ e, p.model.ResolvesAll e') :
    (p.condition e).messages = e.toList.flatMap p.dialect.placeholders := by
  rcases e with _ | e
  · rfl
  · rw [Option.toList_some, List.flatMap_singleton]
    exact p.messages_render none (h e rfl)

end Printer

end Kconfig
