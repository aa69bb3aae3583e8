import Kconfig.Proofs.Condition.Legible

/-!
# Conditions are read as they were meant

The layout of conditions knows one order of precedence, and the two dialects disagree about the
negation. All the same, the reader of either dialect finds the condition in its tokens, and reads
on after it (`Printer.read_layout`). The induction is over the condition. It needs to know that the
layout binds its parts tightly enough for what waits on the stack and for what follows
(`Dialect.level`), and that what waits is in order (`Reading.Ready`).

With names that are names and texts that hold no quote, the whole text is read so. Without that
there is no telling where a name ends, since names are written as they are: the option `A or 1` is
read as a disjunction.
-/

namespace Kconfig

namespace Reading

variable {d : Dialect}

/-- What may follow an operand may follow one that binds tighter. -/
theorem Follows.mono {a b : Nat} (hab : a ≤ b) : ∀ {ls : List Lexeme}, Follows a ls → Follows b ls
  | [], _ => trivial
  | .closeParen :: _, _ => trivial
  | .operator _ :: _, h => Nat.le_trans h hab

/-- What a stack of holes is when an operand must come: an operator on top is a connective, and
what it stands on binds less tightly. -/
def Ready (d : Dialect) : List Hole → Prop
  | .after op _ :: holes => op.isConnective ∧ topPower d holes < op.power
  | _ => True

/-- Filling holes leaves none on top that bind as tightly. -/
theorem topPower_settle {power : Nat} (hpower : 0 < power) (f : Formula) (holes : List Hole) :
    topPower d (settle d power f holes).2 < power := by
  induction holes generalizing f with
  | nil => exact hpower
  | cons hole holes ih =>
    cases hole with
    | paren => exact hpower
    | not =>
      by_cases hnot : power ≤ d.notPower
      · rw [settle, if_pos hnot]
        exact ih (.not f)
      · rw [settle, if_neg hnot]
        exact Nat.not_le.mp hnot
    | after op g =>
      by_cases hop : power ≤ op.power
      · rw [settle, if_pos hop]
        exact ih (.join op g f)
      · rw [settle, if_neg hop]
        exact Nat.not_le.mp hop

/-- No operator has the power 0, with which a text ends. -/
theorem power_pos (op : Operator) : 0 < op.power := by
  rcases op with op | _ | _
  · cases op <;> decide
  · decide
  · decide

/-- After its left operand, a connective waits on a stack that is ready. -/
theorem ready_after {op : Operator} (hop : op.isConnective) (f : Formula) (holes : List Hole) :
    Ready d (.after op (settle d op.power f holes).1 :: (settle d op.power f holes).2) :=
  ⟨hop, topPower_settle (power_pos op) f holes⟩

/-- Connectives of one level are one connective. -/
theorem connective_eq_of_power {a b : Operator} (ha : a.isConnective) (hb : b.isConnective)
    (h : a.power = b.power) : a = b := by
  cases a with
  | compare op => cases ha
  | and =>
    cases b with
    | compare op => cases hb
    | and => rfl
    | or => exact absurd h (by decide)
  | or =>
    cases b with
    | compare op => cases hb
    | and => exact absurd h (by decide)
    | or => rfl

/-- The negation binds more tightly than the connectives. -/
theorem power_lt_notPower {op : Operator} (hop : op.isConnective) : op.power < d.notPower := by
  cases op with
  | compare op => cases hop
  | and => cases d <;> decide
  | or => cases d <;> decide

/-- It does not matter whether the left operand of a connective joins a chain before the right one
joins it. -/
theorem settle_join {op : Operator} (hop : op.isConnective) {holes : List Hole}
    (hready : Ready d holes) (htop : topPower d holes ≤ op.power) (f g : Formula) :
    settle d op.power (.join op (settle d op.power f holes).1 g) (settle d op.power f holes).2 =
      settle d op.power (.join op f g) holes := by
  rcases Nat.lt_or_eq_of_le htop with hlt | heq
  · simp only [settle_eq_self hlt]
  · match holes with
    | [] | .paren :: _ => rfl
    | .not :: holes =>
      have hnot : op.power < d.notPower := power_lt_notPower hop
      exact absurd heq (Nat.ne_of_gt hnot)
    | .after op' h :: holes =>
      obtain ⟨hop', hbelow⟩ := hready
      obtain rfl : op' = op := connective_eq_of_power hop' hop heq
      simp only [settle, Nat.le_refl, if_true, settle_eq_self hbelow, Formula.join_assoc hop]

/-- An atom in place of an operand. -/
theorem read_atom (a : Atom) (holes : List Hole) (rest : List Lexeme) :
    read d (operand holes) (Printer.atomLexemes a ++ rest) =
      read d (complete (.atom a) holes) rest := by
  cases a <;> rfl

/-- A negation in place of an operand. -/
theorem read_not {holes : List Hole} (htop : topPower d holes ≤ d.notPower)
    (rest : List Lexeme) :
    read d (operand holes) (.not :: rest) = read d (operand (.not :: holes)) rest := by
  rw [read_cons, step, if_pos htop]
  rfl

/-- What was negated is complete where nothing follows that binds more tightly. -/
theorem read_complete_not (f : Formula) (holes : List Hole) {rest : List Lexeme}
    (hrest : Follows d.notPower rest) :
    read d (complete f (.not :: holes)) rest = read d (complete (.not f) holes) rest := by
  refine read_complete_congr ?_ hrest
  rw [settle, if_pos (Nat.le_refl _)]

/-- A formula between parentheses is read by itself, and is then complete. -/
theorem read_parens {ls : List Lexeme} {f : Formula}
    (h : ∀ holes rest, read d (operand (.paren :: holes)) (ls ++ .closeParen :: rest) =
      read d (complete f (.paren :: holes)) (.closeParen :: rest))
    (holes : List Hole) (rest : List Lexeme) :
    read d (operand holes) (.openParen :: ls ++ .closeParen :: rest) =
      read d (complete f holes) rest := by
  calc read d (operand holes) (.openParen :: ls ++ .closeParen :: rest)
      = read d (operand (.paren :: holes)) (ls ++ .closeParen :: rest) := rfl
    _ = read d (complete f (.paren :: holes)) (.closeParen :: rest) := h holes rest
    _ = read d (complete f holes) rest := rfl

/-- A connective between two operands. -/
theorem read_connective {op : Operator} (hop : op.isConnective) {holes : List Hole}
    (hready : Ready d holes) (htop : topPower d holes ≤ op.power) {f g : Formula}
    {ls rest : List Lexeme} (hrest : Follows op.power rest)
    (h : ∀ holes', Ready d holes' → topPower d holes' = op.power →
      read d (operand holes') (ls ++ rest) = read d (complete g holes') rest) :
    read d (complete f holes) (.operator op :: (ls ++ rest)) =
      read d (complete (.join op f g) holes) rest := by
  have hafter := h (.after op (settle d op.power f holes).1 :: (settle d op.power f holes).2)
    (ready_after hop f holes) rfl
  calc read d (complete f holes) (.operator op :: (ls ++ rest))
      = read d (operand (.after op (settle d op.power f holes).1 ::
          (settle d op.power f holes).2)) (ls ++ rest) := rfl
    _ = read d (complete g (.after op (settle d op.power f holes).1 ::
          (settle d op.power f holes).2)) rest := hafter
    _ = read d (complete (.join op f g) holes) rest := by
      refine read_complete_congr ?_ hrest
      rw [settle, if_pos (Nat.le_refl _), settle_join hop hready htop]

end Reading

open Reading

namespace Dialect

/-- How tightly the layout of a condition binds its parts. What has no operator in the dialect
binds as tightly as anything. -/
def level (d : Dialect) : Expr → Nat
  | .not _ => d.notPower
  | .and .. => Operator.and.power
  | .or .. => Operator.or.power
  | .compare op _ r =>
    if op.isOrdering then
      match d with
      | .logic => (Operator.compare op).power
      | .boolean => 7
    else
      match r with
      | .entry _ => (Operator.compare op).power
      | .truth t => if t.isTrue = (op = .equal) then 7 else d.notPower
  | _ => 7

/-- In the logic dialect an ordering is laid out as a comparison. -/
theorem level_ordering_logic {op : Comparison} (hop : op.isOrdering) (l r : SymbolRef) :
    logic.level (.compare op l r) = (Operator.compare op).power :=
  if_pos hop

/-- In the Boolean dialect an ordering is laid out as an atom, the placeholder for it. -/
theorem level_ordering_boolean {op : Comparison} (hop : op.isOrdering) (l r : SymbolRef) :
    boolean.level (.compare op l r) = 7 :=
  if_pos hop

/-- An equality of two symbols is laid out as a comparison. -/
theorem level_values (d : Dialect) {op : Comparison} (hop : ¬ op.isOrdering) (l : SymbolRef)
    (id : SymbolId) : d.level (.compare op l (.entry id)) = (Operator.compare op).power :=
  if_neg hop

/-- An equality with a truth value is laid out as a test, or as the negation of one. -/
theorem level_truth (d : Dialect) {op : Comparison} (hop : ¬ op.isOrdering) (l : SymbolRef)
    (t : Tristate) :
    d.level (.compare op l (.truth t)) = if t.isTrue = (op = .equal) then 7 else d.notPower :=
  if_neg hop

/-- All but conjunctions and disjunctions bind their parts more tightly than they do. -/
theorem two_lt_level (d : Dialect) {e : Expr} (hand : e.kind ≠ .and) (hor : e.kind ≠ .or) :
    2 < d.level e := by
  have hnot : 2 < d.notPower := by cases d <;> decide
  cases e with
  | not e => exact hnot
  | compare op l r =>
    have hop : 2 < (Operator.compare op).power := by cases op <;> decide
    by_cases hordering : op.isOrdering
    · cases d with
      | boolean =>
        rw [level_ordering_boolean hordering]
        omega
      | logic =>
        rw [level_ordering_logic hordering]
        exact hop
    · cases r with
      | entry id =>
        rw [level_values d hordering]
        exact hop
      | truth t =>
        rw [level_truth d hordering]
        split
        · omega
        · exact hnot
  | and l r => exact absurd rfl hand
  | or l r => exact absurd rfl hor
  | symbol | listLast | listCons | range | unknown =>
    show 2 < 7
    omega

/-- What stands under a conjunction without parentheses binds its parts as tightly. -/
theorem and_le_level (d : Dialect) {e : Expr} (h : needsParens (some .and) e.kind = false) :
    Operator.and.power ≤ d.level e := by
  by_cases hand : e.kind = .and
  · cases e with
    | and l r => exact Nat.le_refl _
    | _ => cases hand
  · have hor : e.kind ≠ .or := by
      intro hor
      rw [hor] at h
      exact absurd h (by decide)
    exact Nat.le_of_lt (d.two_lt_level hand hor)

/-- Everything binds its parts as tightly as a disjunction. -/
theorem or_le_level (d : Dialect) (e : Expr) : Operator.or.power ≤ d.level e := by
  by_cases hor : e.kind = .or
  · cases e with
    | or l r => exact Nat.le_refl _
    | _ => cases hor
  · by_cases hand : e.kind = .and
    · cases e with
      | and l r =>
        show 1 ≤ 2
        omega
      | _ => cases hand
    · have hlevel := d.two_lt_level hand hor
      show 1 ≤ d.level e
      omega

/-- What stands under a negation without parentheses binds its parts as tightly. In the boolean
dialect this is what the parentheses around equalities are for. -/
theorem notPower_le_level (d : Dialect) {e : Expr} (h : needsParens (some .not) e.kind = false)
    (hsplits : d.splitsUnderNot e = false) : d.notPower ≤ d.level e := by
  have hand : e.kind ≠ .and := by
    intro hand
    rw [hand] at h
    exact absurd h (by decide)
  have hor : e.kind ≠ .or := by
    intro hor
    rw [hor] at h
    exact absurd h (by decide)
  cases d with
  | logic => exact Dialect.logic.two_lt_level hand hor
  | boolean =>
    cases e with
    | compare op l r =>
      by_cases hordering : op.isOrdering
      · rw [level_ordering_boolean hordering]
        show 6 ≤ 7
        omega
      · cases r with
        | entry id =>
          simp only [splitsUnderNot, hordering] at hsplits
          cases hsplits
        | truth t =>
          rw [level_truth .boolean hordering]
          split <;> decide
    | and l r => exact absurd rfl hand
    | or l r => exact absurd rfl hor
    | not e => exact Nat.le_refl _
    | symbol | listLast | listCons | range | unknown =>
      show 6 ≤ 7
      omega

end Dialect

namespace Printer

variable {p : Printer} {holes : List Hole} {rest : List Lexeme}

/-- What waits on a stack that is ready binds differently from every comparison. -/
theorem topPower_lt_of_ready {d : Dialect} {op : Comparison} (hready : Ready d holes)
    (htop : topPower d holes ≤ (Operator.compare op).power) :
    topPower d holes < (Operator.compare op).power := by
  have hop : 3 < (Operator.compare op).power := by cases op <;> decide
  match holes with
  | [] | .paren :: _ =>
    show 0 < (Operator.compare op).power
    omega
  | .not :: holes =>
    cases d with
    | logic => exact hop
    | boolean =>
      have hlevel : (Operator.compare op).power ≤ 5 := by cases op <;> decide
      have hnot : 6 ≤ (Operator.compare op).power := htop
      omega
  | .after op' f :: holes =>
    have hop' : op'.power < 3 := power_lt_notPower (d := .logic) hready.1
    exact Nat.lt_trans hop' hop

/-- A comparison of two values. -/
theorem read_values {d : Dialect} {op : Comparison} (hready : Ready d holes)
    (htop : topPower d holes ≤ (Operator.compare op).power)
    (hrest : Follows (Operator.compare op).power rest) (a b : Atom) :
    read d (.operand holes)
        (atomLexemes a ++ .operator (.compare op) :: (atomLexemes b ++ rest)) =
      read d (.complete (.binary (.compare op) (.atom a) (.atom b)) holes) rest := by
  have hlt := topPower_lt_of_ready hready htop
  rw [read_atom, read_cons, step, settle_eq_self hlt, Option.bind_some, read_atom]
  refine read_complete_congr ?_ hrest
  rw [settle, if_pos (Nat.le_refl _)]
  rfl

/-- A comparison. -/
theorem read_comparison (op : Comparison) (l r : SymbolRef) (hready : Ready p.dialect holes)
    (htop : topPower p.dialect holes ≤ p.dialect.level (.compare op l r))
    (hrest : Follows (p.dialect.level (.compare op l r)) rest) :
    read p.dialect (.operand holes)
        ((p.dialect.layoutComparison op l r).flatMap p.lexemes ++ rest) =
      read p.dialect (.complete (p.comparisonFormula op l r) holes) rest := by
  unfold Dialect.layoutComparison comparisonFormula
  by_cases hop : op.isOrdering
  · simp only [if_pos hop]
    cases hd : p.dialect with
    | boolean => rfl
    | logic =>
      rw [hd] at hready htop hrest
      rw [Dialect.level_ordering_logic hop] at htop hrest
      have := read_values hready htop hrest (p.atom .plain l) (p.atom .plain r)
      simpa [lexemes] using this
  · simp only [if_neg hop]
    cases r with
    | entry id =>
      rw [Dialect.level_values _ hop] at htop hrest
      have := read_values hready htop hrest (p.atom .plain l) (p.atom .plain (.entry id))
      simpa [Dialect.layoutEquality, lexemes] using this
    | truth t =>
      rw [Dialect.level_truth _ hop] at htop hrest
      simp only [Dialect.layoutEquality]
      -- an equality with a truth value is a test, or the negation of one
      by_cases htest : (t.isTrue = true) = (op = .equal)
      · rw [if_pos htest, if_pos htest]
        simpa [lexemes] using read_atom (p.atom .test l) holes rest
      · rw [if_neg htest] at htop hrest
        rw [if_neg htest, if_neg htest]
        have hnot := read_not htop (atomLexemes (p.atom .test l) ++ rest)
        have hatom := read_atom (d := p.dialect) (p.atom .test l) (.not :: holes) rest
        have hcomplete := read_complete_not (.atom (p.atom .test l)) holes hrest
        simpa [lexemes] using hnot.trans (hatom.trans hcomplete)

/-- What is to be shown of a condition: its reader finds it in its tokens, where what waits and
what follows bind less tightly than its layout. -/
def ReadsBack (p : Printer) (e : Expr) : Prop :=
  ∀ {holes : List Hole} {rest : List Lexeme}, Ready p.dialect holes →
    topPower p.dialect holes ≤ p.dialect.level e → Follows (p.dialect.level e) rest →
    read p.dialect (.operand holes) ((p.dialect.layout none e).flatMap p.lexemes ++ rest) =
      read p.dialect (.complete (p.formula e) holes) rest

/-- Between parentheses, a condition is found whatever waits and follows. -/
theorem read_parens_layout {e : Expr} (h : ReadsBack p e) (holes : List Hole)
    (rest : List Lexeme) :
    read p.dialect (.operand holes)
        (([Token.openParen] ++ p.dialect.layout none e ++ [Token.closeParen]).flatMap p.lexemes ++
          rest) =
      read p.dialect (.complete (p.formula e) holes) rest := by
  have inner : ∀ holes' rest', read p.dialect (.operand (.paren :: holes'))
        ((p.dialect.layout none e).flatMap p.lexemes ++ .closeParen :: rest') =
      read p.dialect (.complete (p.formula e) (.paren :: holes')) (.closeParen :: rest') := by
    intro holes' rest'
    exact h trivial (Nat.zero_le _) trivial
  simpa [lexemes] using read_parens inner holes rest

/-- Under a node, a condition is found if the node gave it parentheses or it binds tightly
enough. -/
theorem read_layout_under {e : Expr} (h : ReadsBack p e) {enclosing : Option ExprKind}
    {power : Nat} (hlevel : needsParens enclosing e.kind = false → power ≤ p.dialect.level e)
    (hready : Ready p.dialect holes) (htop : topPower p.dialect holes ≤ power)
    (hrest : Follows power rest) :
    read p.dialect (.operand holes) ((p.dialect.layout enclosing e).flatMap p.lexemes ++ rest) =
      read p.dialect (.complete (p.formula e) holes) rest := by
  rw [Dialect.layout_eq_ite]
  by_cases hparens : needsParens enclosing e.kind
  · rw [if_pos hparens]
    exact read_parens_layout h holes rest
  · rw [if_neg hparens]
    have hpower := hlevel (Bool.eq_false_iff.mpr hparens)
    exact h hready (Nat.le_trans htop hpower) (Follows.mono hpower hrest)

/-- Two conditions with a connective between them, under the node of the connective. -/
theorem read_layout_connective (kind : ExprKind) {op : Operator} (hop : op.isConnective)
    {l r : Expr} (hl : ReadsBack p l) (hr : ReadsBack p r)
    (hlevel : ∀ e : Expr, needsParens (some kind) e.kind = false → op.power ≤ p.dialect.level e)
    (hready : Ready p.dialect holes) (htop : topPower p.dialect holes ≤ op.power)
    (hrest : Follows op.power rest) :
    read p.dialect (.operand holes)
        ((p.dialect.layout (some kind) l).flatMap p.lexemes ++
          .operator op :: ((p.dialect.layout (some kind) r).flatMap p.lexemes ++ rest)) =
      read p.dialect (.complete (.join op (p.formula l) (p.formula r)) holes) rest := by
  have hself : Follows op.power (.operator op ::
      ((p.dialect.layout (some kind) r).flatMap p.lexemes ++ rest)) := Nat.le_refl op.power
  rw [read_layout_under hl (hlevel l) hready htop hself]
  apply read_connective hop hready htop hrest
  intro holes' hready' htop'
  exact read_layout_under hr (hlevel r) hready' (Nat.le_of_eq htop') hrest

/-- The reader finds a condition in the tokens of its layout. -/
theorem read_layout (p : Printer) {e : Expr} (he : e.isCondition) : ReadsBack p e := by
  induction e with
  | symbol sym =>
    intro holes rest _ _ _
    simpa [formula, lexemes] using read_atom (p.atom .test sym) holes rest
  | not e ih =>
    intro holes rest hready htop hrest
    have hnot := read_not (d := p.dialect) htop
    -- the negation is a hole while its operand is read, and is filled right after it
    have hcomplete := read_complete_not (d := p.dialect) (p.formula e) holes hrest
    rw [Dialect.layout_not, List.flatMap_cons]
    refine (hnot _).trans (Eq.trans ?_ hcomplete)
    by_cases hsplits : p.dialect.splitsUnderNot e
    · rw [if_pos hsplits]
      exact read_parens_layout (ih he) _ rest
    · rw [if_neg hsplits]
      have hlevel : needsParens (some .not) e.kind = false →
          p.dialect.notPower ≤ p.dialect.level e := by
        intro hparens
        exact p.dialect.notPower_le_level hparens (Bool.eq_false_iff.mpr hsplits)
      exact read_layout_under (ih he) hlevel trivial (Nat.le_refl _) hrest
  | compare op l r =>
    intro holes rest hready htop hrest
    rw [Dialect.layout_compare]
    exact read_comparison op l r hready htop hrest
  | and l r ihl ihr =>
    intro holes rest hready htop hrest
    simp only [Expr.isCondition, Bool.and_eq_true] at he
    have := read_layout_connective .and rfl (ihl he.1) (ihr he.2)
      (fun _ => p.dialect.and_le_level) hready htop hrest
    simpa [formula, lexemes] using this
  | or l r ihl ihr =>
    intro holes rest hready htop hrest
    simp only [Expr.isCondition, Bool.and_eq_true] at he
    have := read_layout_connective .or rfl (ihl he.1) (ihr he.2)
      (fun e _ => p.dialect.or_le_level e) hready htop hrest
    simpa [formula, lexemes] using this
  | unknown =>
    intro holes rest _ _ _
    rfl
  | listLast | listCons | range => cases he

/-- The text of a condition is read as a formula that holds exactly where the condition does. -/
theorem render_reads_back (p : Printer) {e : Expr} (he : e.isCondition)
    (hrefs : ∀ sym ∈ e.refs, p.model.Resolves sym) (hlegible : ∀ sym ∈ e.refs, p.isLegible sym) :
    ∃ text f, (p.render none e).ending = .ok text ∧ Formula.ofText? p.dialect text = some f ∧
      ∀ v, f.value v ≠ 0 ↔ p.Holds v e := by
  have hready : Ready p.dialect [] := trivial
  have hrest : Follows (p.dialect.level e) [] := trivial
  have hread := read_layout p he hready (Nat.zero_le _) hrest
  refine ⟨String.join ((p.dialect.layout none e).map p.tokenText), p.formula e, ?_, ?_, ?_⟩
  · rw [p.render_of_resolves none hrefs]
  · unfold Formula.ofText?
    rw [lexemes?_layout he hlegible none, Option.bind_some,
      ← List.append_nil (List.flatMap ..), hread]
    rfl
  · intro v
    exact p.formula_holds v e

/-- A printer for two options and a value. -/
def ofTwoOptions (d : Dialect) : Printer where
  model :=
    { symbols := #[{ name := some "A", kind := .bool }, { name := some "B", kind := .int },
        { name := some "42" }] }
  namePrefix := "CONFIG_"
  dialect := d

/-- A negated equality of two options, which only the boolean dialect puts in parentheses, next to
a disjunction of a test and an equality with a value. -/
def negatedEquality : Expr :=
  .and (.not (.compare .equal (.entry ⟨0⟩) (.entry ⟨1⟩)))
    (.or (.symbol (.entry ⟨0⟩)) (.compare .unequal (.entry ⟨1⟩) (.entry ⟨2⟩)))

/-- A negated equality is read back from the text in which it stands between parentheses. -/
theorem negatedEquality_reads_back :
    ∃ text f, ((ofTwoOptions .boolean).render none negatedEquality).ending = .ok text ∧
      Formula.ofText? .boolean text = some f ∧
      ∀ v, f.value v ≠ 0 ↔ (ofTwoOptions .boolean).Holds v negatedEquality :=
  render_reads_back (ofTwoOptions .boolean) rfl (by decide) (by decide)

/-- A printer for an option with blanks in its name. -/
def ofSpacedName : Printer where
  model := { symbols := #[{ name := some "A or 1", kind := .bool }] }
  namePrefix := "CONFIG_"
  dialect := .logic

/-- The text of the option `A or 1` is a disjunction that always holds, and the option need not. -/
theorem spacedName_misread :
    ofSpacedName.model.Resolves (.entry ⟨0⟩) ∧
    ¬ ∃ text f, (ofSpacedName.render none (.symbol (.entry ⟨0⟩))).ending = .ok text ∧
      Formula.ofText? .logic text = some f ∧
      ∀ v, f.value v ≠ 0 ↔ ofSpacedName.Holds v (.symbol (.entry ⟨0⟩)) := by
  refine ⟨by decide, ?_⟩
  rintro ⟨text, f, htext, hf, hholds⟩
  have hrender : (ofSpacedName.render none (.symbol (.entry ⟨0⟩))).ending =
      .ok "CONFIG_A or 1" := rfl
  have hread : Formula.ofText? .logic "CONFIG_A or 1" =
      some (.binary .or (.atom (.name "CONFIG_A")) (.atom (.literal true))) := by decide
  rw [hrender] at htext
  obtain rfl := Except.ok.inj htext
  rw [hread] at hf
  obtain rfl := Option.some.inj hf
  -- no name has a value that is true
  have hfalse := (hholds ⟨fun _ => 0, fun _ => 0⟩).mp (by decide)
  exact hfalse (by decide)

end Printer

end Kconfig
