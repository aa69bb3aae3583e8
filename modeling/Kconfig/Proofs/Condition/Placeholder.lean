import Kconfig.Proofs.Condition.ReadBack

/-!
# What placeholders do to a condition

A node whose operator is not known is written as `1`, and so is an ordering comparison in the
boolean dialect. What such a node would have said is lost. `Printer.HoldsGiven` is the meaning of a
condition where each of them says what it likes: its truth value is given by its place, the way to
it from the root.

A placeholder can only weaken what stands around it, up to the next negation, and only strengthens
what stands around that, up to the one after it. So what counts is whether the number of negations
around a placeholder is even or odd. Where those under an odd number would have been true anyway,
the text of a condition holds wherever the condition does (`Printer.render_weakens`). Where one of
them would have been false it need not, as in the negation of an unknown node.
-/

namespace Kconfig

/-- A turn on the way from a node of a condition to a node below it. -/
inductive Turn where
  /-- To what is negated. -/
  | operand
  | left
  | right
deriving DecidableEq

/-- Whether a way passes an odd number of negations. -/
def Turn.isNegated (place : List Turn) : Bool :=
  place.count .operand % 2 = 1

/-- Going into the operand of a negation changes whether a place is negated. -/
theorem Turn.isNegated_operand (place : List Turn) :
    isNegated (.operand :: place) = !isNegated place := by
  unfold isNegated
  rw [List.count_cons_self]
  rcases Nat.mod_two_eq_zero_or_one (place.count .operand) with h | h
  · have hnext : (place.count .operand + 1) % 2 = 1 := by omega
    rw [h, hnext]
    rfl
  · have hnext : (place.count .operand + 1) % 2 = 0 := by omega
    rw [h, hnext]
    rfl

/-- The node of a condition at a place, if there is one. -/
def Expr.nodeAt? : Expr → List Turn → Option Expr
  | e, [] => some e
  | not e, .operand :: place => e.nodeAt? place
  | and l _, .left :: place | or l _, .left :: place => l.nodeAt? place
  | and _ r, .right :: place | or _ r, .right :: place => r.nodeAt? place
  | _, _ => none

namespace Printer

variable (p : Printer) (v : Valuation)

/-- Whether a node is written as `1` because there is no way to say it. -/
def isPlaceholder : Expr → Bool
  | .unknown => true
  | .compare op _ _ => op.isOrdering && p.dialect = .boolean
  | _ => false

/-- Whether a condition holds, given a truth value for the node at each place that is written as
`1`. -/
def HoldsGiven : Expr → (List Turn → Bool) → Prop
  | .symbol sym, _ => p.refValue v sym ≠ 0
  | .not e, truth => ¬ HoldsGiven e fun place => truth (.operand :: place)
  | .compare op l r, truth =>
    if p.isPlaceholder (.compare op l r) then truth [] = true else p.ComparisonHolds v op l r
  | .and l r, truth =>
    HoldsGiven l (fun place => truth (.left :: place)) ∧
      HoldsGiven r fun place => truth (.right :: place)
  | .or l r, truth =>
    HoldsGiven l (fun place => truth (.left :: place)) ∨
      HoldsGiven r fun place => truth (.right :: place)
  | .unknown, truth => truth []
  | .listLast _, _ | .listCons .., _ | .range .., _ => True

/-- Whether the placeholders under an odd number of negations are true, or those under an even
number. -/
def Concedes (negated : Bool) (e : Expr) (truth : List Turn → Bool) : Prop :=
  ∀ place node, e.nodeAt? place = some node → p.isPlaceholder node →
    Turn.isNegated place = negated → truth place

variable {p v}

/-- Under a negation, odd numbers of negations become even ones. -/
theorem Concedes.operand {negated : Bool} {e : Expr} {truth : List Turn → Bool}
    (h : p.Concedes negated e.not truth) :
    p.Concedes (!negated) e fun place => truth (.operand :: place) := by
  intro place node hnode hplaceholder hnegated
  apply h (.operand :: place) node hnode hplaceholder
  rw [Turn.isNegated_operand, hnegated, Bool.not_not]

/-- A condition whose node at a place is that of `e` below a turn other than a negation. -/
theorem Concedes.below {negated : Bool} {whole e : Expr} {truth : List Turn → Bool}
    (h : p.Concedes negated whole truth) (turn : Turn) (hturn : turn ≠ .operand)
    (hwhole : ∀ place, whole.nodeAt? (turn :: place) = e.nodeAt? place) :
    p.Concedes negated e fun place => truth (turn :: place) := by
  intro place node hnode hplaceholder hnegated
  apply h (turn :: place) node ((hwhole place).trans hnode) hplaceholder
  rw [← hnegated]
  unfold Turn.isNegated
  rw [List.count_cons_of_ne hturn]

/-- A placeholder by itself stands under no negation. -/
theorem Concedes.root {e : Expr} {truth : List Turn → Bool} (h : p.Concedes false e truth)
    (he : p.isPlaceholder e) : truth [] = true :=
  h [] e (by cases e <;> rfl) he rfl

/-- A comparison that is a placeholder is taken to hold. -/
theorem comparisonHolds_of_isPlaceholder {op : Comparison} {l r : SymbolRef}
    (h : p.isPlaceholder (.compare op l r)) : p.ComparisonHolds v op l r := by
  simp only [isPlaceholder, Bool.and_eq_true, decide_eq_true_eq] at h
  unfold ComparisonHolds
  rw [if_pos h.1]
  exact .inl h.2

/-- Taking all placeholders to be true weakens a condition if those under an odd number of negations
are true, and strengthens it if those under an even number are. -/
theorem holds_holdsGiven (e : Expr) (truth : List Turn → Bool) :
    (p.Concedes true e truth → p.HoldsGiven v e truth → p.Holds v e) ∧
      (p.Concedes false e truth → p.Holds v e → p.HoldsGiven v e truth) := by
  induction e generalizing truth with
  | symbol sym => exact ⟨fun _ h => h, fun _ h => h⟩
  | not e ih =>
    -- what weakens the operand strengthens its negation
    obtain ⟨weaker, stronger⟩ := ih fun place => truth (.operand :: place)
    constructor
    · intro hconcedes hgiven hholds
      exact hgiven (stronger hconcedes.operand hholds)
    · intro hconcedes hholds hgiven
      exact hholds (weaker hconcedes.operand hgiven)
  | compare op l r =>
    unfold HoldsGiven Holds
    by_cases hplaceholder : p.isPlaceholder (.compare op l r)
    · rw [if_pos hplaceholder]
      constructor
      · intro _ _
        exact comparisonHolds_of_isPlaceholder hplaceholder
      · intro hconcedes _
        exact hconcedes.root hplaceholder
    · rw [if_neg hplaceholder]
      exact ⟨fun _ h => h, fun _ h => h⟩
  | and l r ihl ihr =>
    obtain ⟨weakerl, strongerl⟩ := ihl fun place => truth (.left :: place)
    obtain ⟨weakerr, strongerr⟩ := ihr fun place => truth (.right :: place)
    have left : ∀ negated, p.Concedes negated (l.and r) truth → p.Concedes negated l _ :=
      fun _ h => h.below .left (by decide) fun _ => rfl
    have right : ∀ negated, p.Concedes negated (l.and r) truth → p.Concedes negated r _ :=
      fun _ h => h.below .right (by decide) fun _ => rfl
    constructor
    · intro h
      exact And.imp (weakerl (left true h)) (weakerr (right true h))
    · intro h
      exact And.imp (strongerl (left false h)) (strongerr (right false h))
  | or l r ihl ihr =>
    obtain ⟨weakerl, strongerl⟩ := ihl fun place => truth (.left :: place)
    obtain ⟨weakerr, strongerr⟩ := ihr fun place => truth (.right :: place)
    have left : ∀ negated, p.Concedes negated (l.or r) truth → p.Concedes negated l _ :=
      fun _ h => h.below .left (by decide) fun _ => rfl
    have right : ∀ negated, p.Concedes negated (l.or r) truth → p.Concedes negated r _ :=
      fun _ h => h.below .right (by decide) fun _ => rfl
    constructor
    · intro h
      exact Or.imp (weakerl (left true h)) (weakerr (right true h))
    · intro h
      exact Or.imp (strongerl (left false h)) (strongerr (right false h))
  | unknown =>
    constructor
    · intro _ _
      trivial
    · intro hconcedes _
      exact hconcedes.root rfl
  | listLast | listCons | range => exact ⟨fun _ _ => trivial, fun _ _ => trivial⟩

/-- The text of a condition is read as what a reader is to see of it. -/
theorem ofText?_layout (p : Printer) {e : Expr} (he : e.isCondition)
    (hlegible : ∀ sym ∈ e.refs, p.isLegible sym) :
    Formula.ofText? p.dialect (String.join ((p.dialect.layout none e).map p.tokenText)) =
      some (p.formula e) := by
  have hready : Reading.Ready p.dialect [] := trivial
  have hrest : Reading.Follows (p.dialect.level e) [] := trivial
  have hread := read_layout p he hready (Nat.zero_le _) hrest
  rw [List.append_nil] at hread
  unfold Formula.ofText?
  rw [lexemes?_layout he hlegible none, Option.bind_some, hread]
  rfl

/-- The text of a condition is read as a formula that holds wherever the condition does, whatever
its placeholders stand for, as long as those under an odd number of negations stand for something
true. -/
theorem render_weakens (p : Printer) {e : Expr} (he : e.isCondition)
    (hrefs : ∀ sym ∈ e.refs, p.model.Resolves sym) (hlegible : ∀ sym ∈ e.refs, p.isLegible sym) :
    ∃ text f, (p.render none e).ending = .ok text ∧ Formula.ofText? p.dialect text = some f ∧
      ∀ v truth, p.Concedes true e truth → p.HoldsGiven v e truth → f.value v ≠ 0 := by
  refine ⟨String.join ((p.dialect.layout none e).map p.tokenText), p.formula e, ?_, ?_, ?_⟩
  · rw [p.render_of_resolves none hrefs]
  · exact p.ofText?_layout he hlegible
  · intro v truth hconcedes hgiven
    have hholds := (holds_holdsGiven e truth).1 hconcedes hgiven
    exact (p.formula_holds v e).mpr hholds

/-- An unknown node by itself, and one that is negated. -/
def scatteredUnknowns : Expr :=
  .and (.or (.symbol (.entry ⟨0⟩)) .unknown) (.or (.not .unknown) (.symbol (.entry ⟨0⟩)))

/-- The text of `scatteredUnknowns` is read as a formula that is true where both options are set. -/
theorem scatteredUnknowns_weaken :
    ∃ text f, ((ofTwoOptions .boolean).render none scatteredUnknowns).ending = .ok text ∧
      Formula.ofText? .boolean text = some f ∧ f.value ⟨fun _ => 1, fun _ => 0⟩ ≠ 0 := by
  obtain ⟨text, f, htext, hf, hholds⟩ :=
    render_weakens (ofTwoOptions .boolean) (e := scatteredUnknowns) rfl (by decide) (by decide)
  refine ⟨text, f, htext, hf, ?_⟩
  -- the least that may be given: of the two nodes, only the negated one is true
  apply hholds _ Turn.isNegated
  · intro place node _ _ hnegated
    exact hnegated
  · have hoption : (ofTwoOptions .boolean).refValue ⟨fun _ => 1, fun _ => 0⟩ (.entry ⟨0⟩) ≠ 0 := by
      decide
    exact ⟨.inl hoption, .inr hoption⟩

/-- A printer for no symbols at all. -/
def ofNothing : Printer where
  model := {}
  namePrefix := "CONFIG_"
  dialect := .logic

/-- The text of the negation of an unknown node never holds, though the node may be false. -/
theorem negatedUnknown_strengthens :
    ¬ ∃ text f, (ofNothing.render none (.not .unknown)).ending = .ok text ∧
      Formula.ofText? .logic text = some f ∧
      ∀ v truth, ofNothing.HoldsGiven v (.not .unknown) truth → f.value v ≠ 0 := by
  rintro ⟨text, f, htext, hf, hholds⟩
  have hrender : (ofNothing.render none (.not .unknown)).ending = .ok " not 1" := rfl
  have hread : Formula.ofText? .logic " not 1" = some (.not (.atom (.literal true))) := by decide
  rw [hrender] at htext
  obtain rfl := Except.ok.inj htext
  rw [hread] at hf
  obtain rfl := Option.some.inj hf
  have hfalse := hholds ⟨fun _ => 0, fun _ => 0⟩ (fun _ => false) Bool.false_ne_true
  exact hfalse rfl

end Printer

end Kconfig
