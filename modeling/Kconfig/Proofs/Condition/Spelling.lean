import Kconfig.Condition.Printer
import Kconfig.Proofs.Model.Resolution

/-!
# What a condition's text is

The tokens of an expression are about the symbols that it refers to, and an ordering sign is asked
for only where there is one (`Token.IsOf`). So where all that an expression refers to leads to
something, writing it is no more than putting the texts of its tokens together, with a message for
each token that stands for what cannot be said (`Printer.render_of_resolves`).
-/

namespace Kconfig

/-- Whether an expression is a condition. Chains of choice members and ranges are none. -/
def Expr.isCondition : Expr → Bool
  | symbol _ | compare .. | unknown => true
  | not e => e.isCondition
  | and l r | or l r => l.isCondition && r.isCondition
  | listLast _ | listCons .. | range .. => false

namespace Token

/-- What is known of the tokens of an expression: they are about its symbols, an ordering sign is
asked for of an ordering comparison, and only what is no condition has blanks, carets or ranges. -/
def IsOf (e : Expr) : Token → Prop
  | operand _ sym => sym ∈ e.refs
  | ordering kind => ∃ op : Comparison, kind = .comparison op ∧ op.isOrdering
  | gap | caret | openRange | rangeGap | closeRange => e.isCondition = false
  | _ => True

/-- A token of a part is a token of the whole. -/
theorem IsOf.mono {part whole : Expr} (hrefs : part.refs ⊆ whole.refs)
    (hcondition : whole.isCondition → part.isCondition) {t : Token} (h : t.IsOf part) :
    t.IsOf whole := by
  have hnot : part.isCondition = false → whole.isCondition = false := by
    intro hp
    rw [Bool.eq_false_iff]
    intro hw
    rw [hcondition hw] at hp
    cases hp
  cases t with
  | operand role sym => exact hrefs h
  | ordering kind => exact h
  | gap | caret | openRange | rangeGap | closeRange => exact hnot h
  | _ => trivial

/-- The message for a token that stands for what cannot be said. -/
def note? : Token → Option Diagnostic
  | unsaid op => some (.comparisonReplaced op)
  | unknown => some .unknownReplaced
  | _ => none

end Token

namespace Dialect

/-- The tokens of a comparison are about its sides. -/
theorem isOf_layoutComparison (d : Dialect) (op : Comparison) (l r : SymbolRef) :
    ∀ t ∈ d.layoutComparison op l r, t.IsOf (.compare op l r) := by
  have hl : l ∈ (Expr.compare op l r).refs := by simp
  have hr : r ∈ (Expr.compare op l r).refs := by simp
  by_cases hop : op.isOrdering
  · cases d with
    | boolean =>
      simp only [layoutComparison, if_pos hop, List.forall_mem_singleton]
      exact trivial
    | logic =>
      -- the sign is asked for by the kind of the node itself
      simp only [layoutComparison, if_pos hop, List.forall_mem_cons, List.not_mem_nil]
      exact ⟨hl, ⟨op, rfl, hop⟩, hr, nofun⟩
  · simp only [layoutComparison, if_neg hop]
    cases r with
    | entry id =>
      simp only [layoutEquality, List.forall_mem_cons, List.not_mem_nil]
      exact ⟨hl, trivial, hr, nofun⟩
    | truth t =>
      simp only [layoutEquality]
      split
      · exact List.forall_mem_singleton.mpr hl
      · exact List.forall_mem_cons.mpr ⟨trivial, List.forall_mem_singleton.mpr hl⟩

/-- Parentheses are tokens of any expression. -/
theorem isOf_parens {ts : List Token} {whole : Expr} (h : ∀ t ∈ ts, t.IsOf whole) :
    ∀ t ∈ [Token.openParen] ++ ts ++ [Token.closeParen], t.IsOf whole := by
  simp only [List.forall_mem_append, List.forall_mem_singleton]
  exact ⟨⟨trivial, h⟩, trivial⟩

/-- What holds of the tokens of an operand holds of them under a node. -/
theorem isOf_layout_of_none {d : Dialect} {e whole : Expr}
    (h : ∀ t ∈ d.layout none e, t.IsOf whole) (enclosing : Option ExprKind) :
    ∀ t ∈ d.layout enclosing e, t.IsOf whole := by
  rw [layout_eq_ite]
  split
  · exact isOf_parens h
  · exact h

/-- The tokens of an expression are about what it refers to. -/
theorem isOf_layout (d : Dialect) (enclosing : Option ExprKind) (e : Expr) :
    ∀ t ∈ d.layout enclosing e, t.IsOf e := by
  refine isOf_layout_of_none ?_ enclosing
  induction e with
  | symbol s => exact List.forall_mem_singleton.mpr (List.mem_singleton.mpr rfl)
  | not e ih =>
    have inner : ∀ t ∈ d.layout none e, t.IsOf e.not := by
      intro t ht
      exact (ih t ht).mono (List.Subset.refl e.refs) id
    rw [layout_not, List.forall_mem_cons]
    refine ⟨trivial, ?_⟩
    split
    · exact isOf_parens inner
    · exact isOf_layout_of_none inner _
  | compare op l r =>
    rw [layout_compare]
    exact isOf_layoutComparison d op l r
  | and l r ihl ihr =>
    have left : ∀ t ∈ d.layout none l, t.IsOf (l.and r) := by
      intro t ht
      exact (ihl t ht).mono (by simp) (by simp +contextual [Expr.isCondition])
    have right : ∀ t ∈ d.layout none r, t.IsOf (l.and r) := by
      intro t ht
      exact (ihr t ht).mono (by simp) (by simp +contextual [Expr.isCondition])
    simp only [layout_and, List.forall_mem_append, List.forall_mem_singleton]
    exact ⟨⟨isOf_layout_of_none left _, trivial⟩, isOf_layout_of_none right _⟩
  | or l r ihl ihr =>
    have left : ∀ t ∈ d.layout none l, t.IsOf (l.or r) := by
      intro t ht
      exact (ihl t ht).mono (by simp) (by simp +contextual [Expr.isCondition])
    have right : ∀ t ∈ d.layout none r, t.IsOf (l.or r) := by
      intro t ht
      exact (ihr t ht).mono (by simp) (by simp +contextual [Expr.isCondition])
    simp only [layout_or, List.forall_mem_append, List.forall_mem_singleton]
    exact ⟨⟨isOf_layout_of_none left _, trivial⟩, isOf_layout_of_none right _⟩
  | listLast a =>
    rw [layout_listLast, List.forall_mem_cons]
    exact ⟨List.mem_singleton.mpr rfl, List.forall_mem_singleton.mpr rfl⟩
  | listCons a tail ih =>
    have rest : ∀ t ∈ d.layout none tail, t.IsOf (.listCons a tail) := by
      intro t ht
      exact (ih t ht).mono (by simp) (by simp [Expr.isCondition])
    simp only [layout_listCons, List.forall_mem_append, List.forall_mem_cons, List.not_mem_nil]
    exact ⟨⟨List.mem_cons_self, rfl, rfl, nofun⟩, isOf_layout_of_none rest _⟩
  | range low high =>
    simp only [layout_range, List.forall_mem_cons, List.not_mem_nil]
    exact ⟨rfl, List.mem_cons_self, rfl, List.mem_cons_of_mem _ List.mem_cons_self, rfl, nofun⟩
  | unknown => exact List.forall_mem_singleton.mpr trivial

end Dialect

namespace Printer

/-- The text of a token that can be written. -/
def tokenText (p : Printer) : Token → String
  | .operand role sym => p.className role (p.model.classOf sym)
  | .unsaid _ | .unknown => "1"
  | .openParen => "("
  | .closeParen => ")"
  | .not => p.dialect.notText
  | .and => p.dialect.andText
  | .or => p.dialect.orText
  | .compare op => op.text
  | .ordering (.comparison op) => op.text
  | .ordering _ => ""
  | .gap => " "
  | .caret => "^ "
  | .openRange => "["
  | .rangeGap => " "
  | .closeRange => "]"

/-- A symbol that the table has is called by the name of its class, and nothing is said on the way.
-/
theorem symbol_of_resolves (p : Printer) (role : Role) {sym : SymbolRef}
    (h : p.model.Resolves sym) :
    p.symbol role sym = pure (p.className role (p.model.classOf sym)) := by
  unfold symbol
  simp only [Model.classify_of_resolves h]
  rfl

/-- A token of an expression whose references the table has is spelled out, with the message that it
carries. -/
theorem token_of_isOf (p : Printer) {e : Expr} (h : ∀ s ∈ e.refs, p.model.Resolves s)
    {t : Token} (ht : t.IsOf e) :
    p.token t = ⟨t.note?.toList.map .logged, .ok (p.tokenText t)⟩ := by
  cases t with
  | operand role sym => exact symbol_of_resolves p role (h sym ht)
  | ordering kind =>
    obtain ⟨op, rfl, hop⟩ := ht
    simp only [token, orderingText, hop, if_true]
    rfl
  | _ => rfl

/-- Writing a condition whose references lead to something. -/
theorem render_of_resolves (p : Printer) (enclosing : Option ExprKind) {e : Expr}
    (h : ∀ s ∈ e.refs, p.model.Resolves s) :
    p.render enclosing e =
      ⟨(p.dialect.layout enclosing e).flatMap fun t => t.note?.toList.map .logged,
        .ok (String.join ((p.dialect.layout enclosing e).map p.tokenText))⟩ := by
  have tokens := p.dialect.isOf_layout enclosing e
  unfold render
  rw [Run.mapM_of_ok fun t ht => p.token_of_isOf h (tokens t ht)]
  simp [bind, pure]

end Printer

end Kconfig
