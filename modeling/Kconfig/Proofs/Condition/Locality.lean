import Kconfig.Proofs.Condition.Spelling

/-!
# What the text of a condition depends on

Of a model, the text of a condition depends on what the references in the condition stand for, and
on nothing else. So a printer for another model writes an expression in the same way, with the same
messages and the same end, if the references of this expression stand for the same
(`Printer.render_withModel`), whether or not they lead to anything.
-/

namespace Kconfig.Printer

variable {p : Printer} {m' : Model}

/-- The printer for another model. -/
def withModel (p : Printer) (m' : Model) : Printer :=
  { p with model := m' }

/-- A symbol that is classified alike in another model is called alike. -/
theorem symbol_withModel {sym : SymbolRef} (h : m'.classify sym = p.model.classify sym)
    (role : Role) : (p.withModel m').symbol role sym = p.symbol role sym := by
  show (do return p.className role (← m'.classify sym)) = p.symbol role sym
  rw [h]
  rfl

/-- The tokens of an expression are about its references. -/
theorem token_withModel {e : Expr} (h : ∀ sym ∈ e.refs, m'.classify sym = p.model.classify sym)
    {t : Token} (ht : t.IsOf e) : (p.withModel m').token t = p.token t := by
  cases t with
  | operand role sym => exact symbol_withModel (h sym ht) role
  | _ => rfl

/-- An expression renders alike in a model that classifies its references alike. -/
theorem render_withModel {e : Expr} (h : ∀ sym ∈ e.refs, m'.classify sym = p.model.classify sym)
    (enclosing : Option ExprKind) :
    (p.withModel m').render enclosing e = p.render enclosing e := by
  have htokens : (p.dialect.layout enclosing e).mapM (p.withModel m').token =
      (p.dialect.layout enclosing e).mapM p.token := by
    apply Run.mapM_congr
    intro t ht
    exact token_withModel h (p.dialect.isOf_layout enclosing e t ht)
  unfold render
  rw [← htokens]
  rfl

/-- A condition renders alike in a model that classifies its references alike, also where there is
none. -/
theorem condition_withModel {e : Option Expr}
    (h : ∀ e' ∈ e, ∀ sym ∈ e'.refs, m'.classify sym = p.model.classify sym) :
    (p.withModel m').condition e = p.condition e := by
  rcases e with _ | e
  · rfl
  · exact render_withModel (h e rfl) none

end Kconfig.Printer
