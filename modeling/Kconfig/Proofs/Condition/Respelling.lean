import Kconfig.Proofs.Condition.Spelling

/-!
# Conditions that are written alike

Some expressions differ and say the same in so many words. A comparison with a truth value says no
more than the test of its left side, or the negation of that test, and it makes no difference how a
chain of conjunctions or of disjunctions is nested. `Expr.Respells` is the least equivalence with
that, closed under all nodes that have an expression below them.

Such expressions have one text, and the same is reported of them, wherever they stand
(`Printer.render_eq_of_respells`). The places in the order of precedence differ: a comparison, a
test and a negation are three kinds of node. So what is carried through an induction over the
relation is the layout under every node that can stand above a condition, together with what the
negation asks of the node right below it (`Dialect.LaidOutAlike`).
-/

namespace Kconfig

/-- What a comparison with a truth value asks of its left side: to hold, or not to hold. Ordering
comparisons ask for something else. -/
def Comparison.sense? : Comparison → Tristate → Option Bool
  | equal, .yes | equal, .mod | unequal, .no => some true
  | equal, .no | unequal, .yes | unequal, .mod => some false
  | _, _ => none

/-- Whether two expressions are the same up to how tests are spelled and how chains are nested. -/
inductive Expr.Respells : Expr → Expr → Prop where
  | refl (e : Expr) : Respells e e
  | symm {e e' : Expr} : Respells e e' → Respells e' e
  | trans {e e' e'' : Expr} : Respells e e' → Respells e' e'' → Respells e e''
  /-- `X == y`, `X == m` and `X != n` are the test of `X`. -/
  | test {op : Comparison} {t : Tristate} (x : SymbolRef) :
    op.sense? t = some true → Respells (.compare op x (.truth t)) (.symbol x)
  /-- `X == n`, `X != y` and `X != m` are its negation. -/
  | negatedTest {op : Comparison} {t : Tristate} (x : SymbolRef) :
    op.sense? t = some false → Respells (.compare op x (.truth t)) (.not (.symbol x))
  | andAssoc (a b c : Expr) : Respells (.and (.and a b) c) (.and a (.and b c))
  | orAssoc (a b c : Expr) : Respells (.or (.or a b) c) (.or a (.or b c))
  | not {e e' : Expr} : Respells e e' → Respells (.not e) (.not e')
  | and {l l' r r' : Expr} : Respells l l' → Respells r r' → Respells (.and l r) (.and l' r')
  | or {l l' r r' : Expr} : Respells l l' → Respells r r' → Respells (.or l r) (.or l' r')
  | listCons (member : SymbolRef) {rest rest' : Expr} :
    Respells rest rest' → Respells (.listCons member rest) (.listCons member rest')

namespace Comparison

variable {op : Comparison} {t : Tristate}

/-- Only equalities ask for truth or its opposite. -/
theorem isOrdering_of_sense? {b : Bool} (h : op.sense? t = some b) : op.isOrdering = false := by
  cases op with
  | equal | unequal => rfl
  | less | lessEqual | greater | greaterEqual => cases h

/-- The layout of a comparison with a truth value goes by what it asks. -/
theorem isTrue_eq_iff_of_sense? {b : Bool} (h : op.sense? t = some b) :
    (t.isTrue = true) = (op = .equal) ↔ b = true := by
  cases op <;> cases t <;> cases h <;> decide

end Comparison

namespace Dialect

variable {d : Dialect} {e e' : Expr} {enclosing : Option ExprKind}

/-! ## Parentheses around tests -/

/-- An equality needs no parentheses but in a comparison. -/
theorem needsParens_comparison (henclosing : ∀ op, enclosing ≠ some (.comparison op))
    {op : Comparison} (hop : op.isOrdering = false) :
    needsParens enclosing (.comparison op) = false := by
  rcases enclosing with _ | parent
  · rfl
  · cases parent with
    | comparison op' => exact absurd rfl (henclosing op')
    | _ => simp [needsParens, ExprKind.precedence, ExprKind.bindingPower, hop]

/-- Neither does a negation. -/
theorem needsParens_not (henclosing : ∀ op, enclosing ≠ some (.comparison op)) :
    needsParens enclosing .not = false := by
  rcases enclosing with _ | parent
  · rfl
  · cases parent with
    | comparison op => exact absurd rfl (henclosing op)
    | _ => rfl

/-- A symbol never needs any. -/
theorem needsParens_symbol (enclosing : Option ExprKind) :
    needsParens enclosing .symbol = false := by
  rcases enclosing with _ | parent
  · rfl
  · cases parent <;> rfl

/-- What needs no parentheses is laid out as it is by itself. -/
theorem layout_of_needsParens_eq_false (h : needsParens enclosing e.kind = false) :
    d.layout enclosing e = d.layout none e := by
  rw [layout_eq_ite, if_neg (Bool.eq_false_iff.mp h)]

/-- An equality is laid out alike in both dialects. -/
theorem layoutComparison_of_equality {op : Comparison} (hop : op.isOrdering = false)
    (l r : SymbolRef) : d.layoutComparison op l r = layoutEquality op l r :=
  if_neg (Bool.eq_false_iff.mp hop)

/-! ## One layout for all spellings -/

/-- Whether two expressions have the same layout under every node that can stand above a condition,
and a negation treats them alike. -/
structure LaidOutAlike (d : Dialect) (e e' : Expr) : Prop where
  layout_eq : ∀ enclosing, (∀ op, enclosing ≠ some (.comparison op)) →
    d.layout enclosing e = d.layout enclosing e'
  splits_eq : d.splitsUnderNot e = d.splitsUnderNot e'

namespace LaidOutAlike

/-- Two expressions of one kind are laid out alike if they are by themselves. -/
theorem of_kind_eq (hkind : e.kind = e'.kind) (hlayout : d.layout none e = d.layout none e')
    (hsplits : d.splitsUnderNot e = d.splitsUnderNot e') : d.LaidOutAlike e e' where
  layout_eq enclosing _ := by
    rw [layout_eq_ite d enclosing e, layout_eq_ite d enclosing e', hkind, hlayout]
  splits_eq := hsplits

/-- Two expressions that need no parentheses under conditions are laid out alike if they are by
themselves. -/
theorem of_needsParens_eq_false
    (he : ∀ enclosing, (∀ op, enclosing ≠ some (.comparison op)) →
      needsParens enclosing e.kind = false)
    (he' : ∀ enclosing, (∀ op, enclosing ≠ some (.comparison op)) →
      needsParens enclosing e'.kind = false)
    (hlayout : d.layout none e = d.layout none e')
    (hsplits : d.splitsUnderNot e = d.splitsUnderNot e') : d.LaidOutAlike e e' where
  layout_eq enclosing henclosing := by
    rw [layout_of_needsParens_eq_false (he enclosing henclosing),
      layout_of_needsParens_eq_false (he' enclosing henclosing), hlayout]
  splits_eq := hsplits

/-- A comparison that asks for truth is laid out as the test. -/
theorem test {op : Comparison} {t : Tristate} (h : op.sense? t = some true) (x : SymbolRef) :
    d.LaidOutAlike (.compare op x (.truth t)) (.symbol x) := by
  have hop := Comparison.isOrdering_of_sense? h
  refine of_needsParens_eq_false ?_ ?_ ?_ ?_
  · intro enclosing henclosing
    exact needsParens_comparison henclosing hop
  · intro enclosing _
    exact needsParens_symbol enclosing
  · have hsense := (Comparison.isTrue_eq_iff_of_sense? h).mpr rfl
    rw [layout_compare, layoutComparison_of_equality hop, layoutEquality, if_pos hsense,
      layout_symbol]
  · cases d <;> rfl

/-- A comparison that asks for the opposite is laid out as the negated test. -/
theorem negatedTest {op : Comparison} {t : Tristate} (h : op.sense? t = some false)
    (x : SymbolRef) : d.LaidOutAlike (.compare op x (.truth t)) (.not (.symbol x)) := by
  have hop := Comparison.isOrdering_of_sense? h
  refine of_needsParens_eq_false ?_ ?_ ?_ ?_
  · intro enclosing henclosing
    exact needsParens_comparison henclosing hop
  · intro enclosing henclosing
    exact needsParens_not henclosing
  · have hsense := (not_congr (Comparison.isTrue_eq_iff_of_sense? h)).mpr Bool.false_ne_true
    have hsymbol : d.splitsUnderNot (.symbol x) = false := by cases d <;> rfl
    rw [layout_compare, layoutComparison_of_equality hop, layoutEquality, if_neg hsense,
      layout_not, if_neg (Bool.eq_false_iff.mp hsymbol),
      layout_of_needsParens_eq_false (needsParens_symbol _), layout_symbol]
  · cases d <;> rfl

/-- Chains of conjunctions are laid out without regard to how they are nested. -/
theorem andAssoc (a b c : Expr) : d.LaidOutAlike (.and (.and a b) c) (.and a (.and b c)) := by
  have hinner : ∀ l r : Expr, d.layout (some .and) (.and l r) = d.layout none (.and l r) := by
    intro l r
    exact layout_of_needsParens_eq_false rfl
  refine of_kind_eq rfl ?_ (by cases d <;> rfl)
  simp only [layout_and, hinner, List.append_assoc]

/-- So are chains of disjunctions. -/
theorem orAssoc (a b c : Expr) : d.LaidOutAlike (.or (.or a b) c) (.or a (.or b c)) := by
  have hinner : ∀ l r : Expr, d.layout (some .or) (.or l r) = d.layout none (.or l r) := by
    intro l r
    exact layout_of_needsParens_eq_false rfl
  refine of_kind_eq rfl ?_ (by cases d <;> rfl)
  simp only [layout_or, hinner, List.append_assoc]

end LaidOutAlike

/-- Spellings of one expression are laid out alike. -/
theorem laidOutAlike_of_respells (d : Dialect) (h : e.Respells e') : d.LaidOutAlike e e' := by
  induction h with
  | refl e => exact ⟨fun _ _ => rfl, rfl⟩
  | symm _ ih =>
    exact ⟨fun enclosing henclosing => (ih.layout_eq enclosing henclosing).symm, ih.splits_eq.symm⟩
  | trans _ _ ih ih' =>
    refine ⟨?_, ih.splits_eq.trans ih'.splits_eq⟩
    intro enclosing henclosing
    exact (ih.layout_eq enclosing henclosing).trans (ih'.layout_eq enclosing henclosing)
  | test x hsense => exact .test hsense x
  | negatedTest x hsense => exact .negatedTest hsense x
  | andAssoc a b c => exact .andAssoc a b c
  | orAssoc a b c => exact .orAssoc a b c
  | not _ ih =>
    -- the parentheses of the boolean dialect go by the operand itself, all others by its kind
    refine .of_kind_eq rfl ?_ (by cases d <;> rfl)
    rw [layout_not, layout_not, ih.splits_eq, ih.layout_eq none nofun,
      ih.layout_eq (some .not) nofun]
  | and _ _ ihl ihr =>
    refine .of_kind_eq rfl ?_ (by cases d <;> rfl)
    rw [layout_and, layout_and, ihl.layout_eq (some .and) nofun, ihr.layout_eq (some .and) nofun]
  | or _ _ ihl ihr =>
    refine .of_kind_eq rfl ?_ (by cases d <;> rfl)
    rw [layout_or, layout_or, ihl.layout_eq (some .or) nofun, ihr.layout_eq (some .or) nofun]
  | listCons member _ ih =>
    refine .of_kind_eq rfl ?_ (by cases d <;> rfl)
    rw [layout_listCons, layout_listCons, ih.layout_eq (some .list) nofun]

end Dialect

namespace Printer

/-- Spellings of one expression are written as one text, with the same messages, wherever a
condition can stand. If all that the expression refers to is there, they are written. -/
theorem render_eq_of_respells (p : Printer) {e e' : Expr} (h : e.Respells e')
    {enclosing : Option ExprKind} (henclosing : ∀ op, enclosing ≠ some (.comparison op)) :
    p.render enclosing e = p.render enclosing e' ∧
      ((∀ sym ∈ e.refs, p.model.Resolves sym) →
        ∃ text, (p.render enclosing e).ending = .ok text) := by
  have hlayout := (p.dialect.laidOutAlike_of_respells h).layout_eq enclosing henclosing
  constructor
  · unfold render
    rw [hlayout]
  · intro hrefs
    rw [p.render_of_resolves enclosing hrefs]
    exact ⟨_, rfl⟩

/-- A printer for two options, in the dialect whose negation takes the left side of a comparison. -/
def ofOptionPair : Printer where
  model :=
    { symbols := #[{ name := some "A", kind := .bool }, { name := some "B", kind := .bool }] }
  namePrefix := "CONFIG_"
  dialect := .boolean

/-- A negated test, next to a comparison that has to be kept and an unknown node, under a negation
and in a chain that is nested to the left. -/
theorem nestedTests_render_eq :
    let a := SymbolRef.entry ⟨0⟩
    let b := SymbolRef.entry ⟨1⟩
    let kept := Expr.not (.compare .equal a b)
    let spelled := Expr.and (.and (.not (.compare .unequal a (.truth .mod))) kept) .unknown
    let plain := Expr.and (.not (.not (.symbol a))) (.and kept .unknown)
    ofOptionPair.render (some .not) spelled = ofOptionPair.render (some .not) plain ∧
      ∃ text, (ofOptionPair.render (some .not) spelled).ending = .ok text := by
  intro a b kept spelled plain
  have hrespells : spelled.Respells plain := by
    have hcomparison : (Expr.compare .unequal a (.truth .mod)).Respells (.not (.symbol a)) :=
      .negatedTest a rfl
    exact .trans (.and (.and (.not hcomparison) (.refl kept)) (.refl .unknown)) (.andAssoc _ _ _)
  have hnot : ∀ op, some ExprKind.not ≠ some (.comparison op) := nofun
  obtain ⟨heq, htext⟩ := render_eq_of_respells ofOptionPair hrespells hnot
  exact ⟨heq, htext (by decide)⟩

end Printer

end Kconfig
