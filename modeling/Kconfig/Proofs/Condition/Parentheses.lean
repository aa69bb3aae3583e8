import Kconfig.Proofs.Condition.FewestParens
import Kconfig.Proofs.Condition.Phrases

/-!
# No parentheses can be left out

The layout of an expression without chains of choice members has as many parentheses as its formula
takes (`Printer.exists_phrasing`): one pair for each operand that binds less tightly than its
operator, and none besides. That is shown by induction over the expression, together with what the
reader makes of its tokens (`Printer.Phrasing`).

Without one matching pair the text can still be read, since neither the order of its phrases nor the
balance of the other parentheses has changed. But it opens one parenthesis less than the formula
takes, so it is read as another one, and not as the same up to associativity either
(`Printer.render_parens_minimal`). Nor is there any other text with fewer parentheses for it
(`Printer.opened_layout_le`).
-/

namespace Kconfig

/-- Whether an expression has no chain of choice members in it. -/
def Expr.isChainFree : Expr → Bool
  | not e => e.isChainFree
  | and l r | or l r => l.isChainFree && r.isChainFree
  | listLast _ | listCons .. => false
  | symbol _ | compare .. | range .. | unknown => true

open Reading

namespace Printer

/-- What is known of tokens that make an operand of what binds as tightly as `power`: they are the
tokens of phrases in order, whose parentheses match, the reader finds the formula in them, and they
have no more parentheses than it takes there. -/
structure Phrasing (p : Printer) (power : Nat) (ts : List Token) (f : Formula)
    (ps : List Phrase) : Prop where
  tokens : ps.flatMap Phrase.tokens = ts
  inOrder : Phrase.after? .operand ps = some .operator
  balanced : Token.depth? 0 ts = some 0
  reads : ∀ {holes : List Hole} {rest : List Lexeme}, Ready p.dialect holes →
    topPower p.dialect holes ≤ power → Follows power rest →
    read p.dialect (.operand holes) (ps.flatMap p.phraseLexemes ++ rest) =
      read p.dialect (.complete f holes) rest
  parens : Lexeme.opened (ps.flatMap p.phraseLexemes) = f.parensUnder p.dialect power

namespace Phrasing

variable {p : Printer} {power : Nat} {ts us : List Token} {f g : Formula} {ps qs : List Phrase}

/-- Between parentheses, tokens make an operand anywhere. -/
theorem enclosed (h : Phrasing p (f.level p.dialect) ts f ps) (hpower : f.level p.dialect < power) :
    Phrasing p power ([.openParen] ++ ts ++ [.closeParen]) f
      ([.token .openParen] ++ ps ++ [.token .closeParen]) where
  tokens := by
    simp only [List.flatMap_append, h.tokens]
    rfl
  inOrder := by
    have hopen : Phrase.after? .operand [.token .openParen] = some .operand := rfl
    rw [Phrase.after?_append, Phrase.after?_append, hopen, Option.bind_some, h.inOrder]
    rfl
  balanced := by
    have hopen : Token.depth? 0 [.openParen] = some (0 + 1) := rfl
    rw [Token.depth?_append, Token.depth?_append, hopen, Option.bind_some,
      Token.depth?_add h.balanced 1]
    rfl
  reads := by
    intro holes rest _ _ _
    have inner : ∀ holes' rest', read p.dialect (.operand (.paren :: holes'))
        (ps.flatMap p.phraseLexemes ++ .closeParen :: rest') =
        read p.dialect (.complete f (.paren :: holes')) (.closeParen :: rest') := by
      intro holes' rest'
      exact h.reads trivial (Nat.zero_le _) trivial
    simpa [phraseLexemes, lexemes] using read_parens inner holes rest
  parens := by
    have hpair : Lexeme.opened (([Phrase.token .openParen] ++ ps ++
        [Phrase.token .closeParen]).flatMap p.phraseLexemes) =
          1 + Lexeme.opened (ps.flatMap p.phraseLexemes) := by
      simp [phraseLexemes, lexemes, Lexeme.parens]
    rw [hpair, h.parens, Formula.parensUnder_of_le (Nat.le_refl _),
      Formula.parensUnder_of_lt hpower, Nat.add_comm]

/-- Tokens that make an operand of their own formula's operator make one of a looser operator. -/
theorem loosened (h : Phrasing p (f.level p.dialect) ts f ps) (hpower : power ≤ f.level p.dialect) :
    Phrasing p power ts f ps where
  tokens := h.tokens
  inOrder := h.inOrder
  balanced := h.balanced
  reads := by
    intro holes rest hready htop hrest
    exact h.reads hready (Nat.le_trans htop hpower) (Follows.mono hpower hrest)
  parens := by
    rw [h.parens, Formula.parensUnder_of_le (Nat.le_refl _), Formula.parensUnder_of_le hpower]

/-- A negation. -/
theorem not (h : Phrasing p p.dialect.notPower ts f ps) :
    Phrasing p p.dialect.notPower (.not :: ts) (.not f) (.token .not :: ps) where
  tokens := by
    rw [List.flatMap_cons, h.tokens]
    rfl
  inOrder := h.inOrder
  balanced := h.balanced
  reads := by
    intro holes rest hready htop hrest
    calc read p.dialect (.operand holes) ((.token .not :: ps).flatMap p.phraseLexemes ++ rest)
        = read p.dialect (.operand (.not :: holes)) (ps.flatMap p.phraseLexemes ++ rest) :=
          read_not htop _
      _ = read p.dialect (.complete f (.not :: holes)) rest :=
          h.reads trivial (Nat.le_refl _) hrest
      _ = read p.dialect (.complete (.not f) holes) rest := read_complete_not f holes hrest
  parens := by
    have hnot : (Formula.not f).level p.dialect = p.dialect.notPower := rfl
    rw [Formula.parensUnder_of_le (Nat.le_of_eq hnot.symm), Formula.parens_not, ← h.parens]
    exact Nat.zero_add _

/-- A connective between two operands. -/
theorem connective {op : Operator} (hop : op.isConnective) {t : Token}
    (hlexemes : p.lexemes t = [.operator op])
    (hnext : Phrase.next? .operator (.token t) = some .operand)
    (hdepth : Token.depth? 0 [t] = some 0)
    (hf : Phrasing p op.power ts f ps) (hg : Phrasing p op.power us g qs) :
    Phrasing p op.power (ts ++ [t] ++ us) (.join op f g) (ps ++ [.token t] ++ qs) where
  tokens := by
    simp only [List.flatMap_append, hf.tokens, hg.tokens]
    rfl
  inOrder := by
    have ht : Phrase.after? .operator [.token t] = some .operand :=
      congrArg (Option.bind · some) hnext
    rw [Phrase.after?_append, Phrase.after?_append, hf.inOrder, Option.bind_some, ht,
      Option.bind_some, hg.inOrder]
  balanced := by
    rw [Token.depth?_append, Token.depth?_append, hf.balanced, Option.bind_some, hdepth,
      Option.bind_some, hg.balanced]
  reads := by
    intro holes rest hready htop hrest
    have hself : Follows op.power
        (.operator op :: (qs.flatMap p.phraseLexemes ++ rest)) := Nat.le_refl op.power
    have hlist : (ps ++ [Phrase.token t] ++ qs).flatMap p.phraseLexemes ++ rest =
        ps.flatMap p.phraseLexemes ++ .operator op :: (qs.flatMap p.phraseLexemes ++ rest) := by
      simp [phraseLexemes, hlexemes]
    rw [hlist, hf.reads hready htop hself]
    apply read_connective hop hready htop hrest
    intro holes' hready' htop'
    exact hg.reads hready' (Nat.le_of_eq htop') hrest
  parens := by
    have hsum : Lexeme.opened ((ps ++ [Phrase.token t] ++ qs).flatMap p.phraseLexemes) =
        Lexeme.opened (ps.flatMap p.phraseLexemes) +
          Lexeme.opened (qs.flatMap p.phraseLexemes) := by
      simp [phraseLexemes, hlexemes, Lexeme.parens]
    have hjoin : op.power ≤ (Formula.join op f g).level p.dialect :=
      Nat.le_of_eq (Formula.level_join ..).symm
    rw [hsum, hf.parens, hg.parens, Formula.parensUnder_of_le hjoin, Formula.parens_join]

/-- The lexemes of an operand are those of its atom. -/
theorem lexemes_operand (p : Printer) (role : Role) (sym : SymbolRef) :
    p.lexemes (.operand role sym) = atomLexemes (p.atom role sym) := rfl

/-- The test of a symbol. -/
theorem symbol (p : Printer) (sym : SymbolRef) :
    Phrasing p 7 [.operand .test sym] (.atom (p.atom .test sym)) [.token (.operand .test sym)] where
  tokens := rfl
  inOrder := rfl
  balanced := rfl
  reads := by
    intro holes rest _ _ _
    simpa [phraseLexemes, lexemes_operand] using read_atom (p.atom .test sym) holes rest
  parens := by
    rw [Formula.parensUnder_of_le (Nat.le_refl 7)]
    simp only [List.flatMap_cons, List.flatMap_nil, List.append_nil, phraseLexemes,
      lexemes_operand]
    cases p.atom .test sym <;> rfl

/-- A range. -/
theorem range (p : Printer) (low high : SymbolRef) :
    Phrasing p 7 (p.dialect.layout none (.range low high)) (.atom (.name (p.rangeText low high)))
      [.range low high] where
  tokens := rfl
  inOrder := rfl
  balanced := rfl
  reads := by
    intro holes rest _ _ _
    rfl
  parens := rfl

/-- A node whose operator is not known. -/
theorem unknown (p : Printer) :
    Phrasing p 7 [.unknown] (.atom (.literal true)) [.token .unknown] where
  tokens := rfl
  inOrder := rfl
  balanced := rfl
  reads := by
    intro holes rest _ _ _
    rfl
  parens := rfl

/-- A comparison that the dialect cannot say. -/
theorem unsaid (p : Printer) (op : Comparison) :
    Phrasing p 7 [.unsaid op] (.atom (.literal true)) [.token (.unsaid op)] where
  tokens := rfl
  inOrder := rfl
  balanced := rfl
  reads := by
    intro holes rest _ _ _
    rfl
  parens := rfl

/-- A comparison of two values. It has no parentheses of its own, and takes none. -/
theorem values (p : Printer) (op : Comparison) (l r : SymbolRef) {t : Token}
    (hlexemes : p.lexemes t = [.operator (.compare op)])
    (hnext : Phrase.next? .operator (.token t) = some .side)
    (hdepth : Token.depth? 0 [t] = some 0) :
    Phrasing p (Operator.compare op).power [.operand .plain l, t, .operand .plain r]
      (.binary (.compare op) (.atom (p.atom .plain l)) (.atom (p.atom .plain r)))
      [.token (.operand .plain l), .token t, .token (.operand .plain r)] where
  tokens := rfl
  inOrder := by
    have hleft : Phrase.next? .operand (.token (.operand .plain l)) = some .operator := rfl
    rw [Phrase.after?_cons, hleft, Option.bind_some, Phrase.after?_cons, hnext]
    rfl
  balanced := by
    show Token.depth? 0 ([t] ++ [.operand .plain r]) = some 0
    rw [Token.depth?_append, hdepth]
    rfl
  reads := by
    intro holes rest hready htop hrest
    have hvalues := read_values hready htop hrest (p.atom .plain l) (p.atom .plain r)
    simpa [phraseLexemes, lexemes_operand, hlexemes] using hvalues
  parens := by
    have hatom : ∀ a : Atom,
        (Formula.atom a).parensUnder p.dialect (Operator.compare op).power = a.parens := by
      intro a
      exact Formula.parensUnder_of_le (power_le _)
    have hself : (Operator.compare op).power ≤ (Formula.binary (.compare op)
        (.atom (p.atom .plain l)) (.atom (p.atom .plain r))).level p.dialect := Nat.le_refl _
    rw [Formula.parensUnder_of_le hself, Formula.parens_binary, hatom, hatom]
    simp [phraseLexemes, lexemes_operand, hlexemes, atomLexemes_plain, Lexeme.parens]

/-- A comparison. -/
theorem comparison (p : Printer) (op : Comparison) (l r : SymbolRef) :
    ∃ ps, (p.comparisonFormula op l r).level p.dialect = p.dialect.level (.compare op l r) ∧
      Phrasing p (p.dialect.level (.compare op l r)) (p.dialect.layoutComparison op l r)
        (p.comparisonFormula op l r) ps := by
  unfold Dialect.layoutComparison comparisonFormula
  by_cases hop : op.isOrdering
  · simp only [if_pos hop]
    cases hd : p.dialect with
    | boolean =>
      rw [Dialect.level_ordering_boolean hop]
      exact ⟨_, rfl, unsaid p op⟩
    | logic =>
      rw [Dialect.level_ordering_logic hop]
      exact ⟨_, rfl, values p op l r rfl (if_pos hop) rfl⟩
  · simp only [if_neg hop]
    cases r with
    | entry id =>
      rw [Dialect.level_values _ hop]
      exact ⟨_, rfl, values p op l (.entry id) rfl rfl rfl⟩
    | truth t =>
      rw [Dialect.level_truth _ hop]
      simp only [Dialect.layoutEquality]
      by_cases htest : (t.isTrue = true) = (op = .equal)
      · simp only [if_pos htest]
        exact ⟨_, rfl, symbol p l⟩
      · simp only [if_neg htest]
        exact ⟨_, rfl, not (loosened (symbol p l) (notPower_le _))⟩

end Phrasing

end Printer

/-! ## Where the layout puts parentheses -/

namespace Dialect

variable {d : Dialect} {e : Expr}

/-- A negation gives parentheses only to what binds its parts less tightly. -/
theorem level_lt_notPower (he : e.isChainFree)
    (h : d.splitsUnderNot e ∨ needsParens (some .not) e.kind) : d.level e < d.notPower := by
  have hand : Operator.and.power < d.notPower := power_lt_notPower rfl
  have hor : Operator.or.power < d.notPower := power_lt_notPower rfl
  cases e with
  | and l r => exact hand
  | or l r => exact hor
  | compare op l r =>
    rcases h with hsplits | hparens
    · -- only `!` splits a comparison, and only one for equality
      cases d with
      | logic => cases hsplits
      | boolean =>
        cases r with
        | truth t => cases hsplits
        | entry id =>
          cases op with
          | equal | unequal =>
            show 4 < 6
            omega
          | less | lessEqual | greater | greaterEqual => cases hsplits
    · cases op <;> cases hparens
  | listLast | listCons => cases he
  | symbol | not | range | unknown =>
    rcases h with hsplits | hparens
    · cases d <;> cases hsplits
    · cases hparens

/-- So does a conjunction. -/
theorem level_lt_and (he : e.isChainFree) (h : needsParens (some .and) e.kind) :
    d.level e < Operator.and.power := by
  cases e with
  | or l r =>
    show 1 < 2
    omega
  | compare op l r => cases op <;> cases h
  | listLast | listCons => cases he
  | symbol | not | and | range | unknown => cases h

/-- A disjunction gives none. -/
theorem needsParens_or (he : e.isChainFree) : needsParens (some .or) e.kind = false := by
  cases e with
  | compare op l r => cases op <;> rfl
  | listLast | listCons => cases he
  | symbol | not | and | or | range | unknown => rfl

end Dialect

namespace Printer

variable {p : Printer} {e : Expr}

/-- An operand with parentheses or without, where it gets them if it binds its parts less tightly
than `power` and only then. -/
theorem exists_phrasing_ite {f : Formula} {ps : List Phrase} {ts : List Token} {power : Nat}
    (h : Phrasing p (f.level p.dialect) ts f ps) {needed : Prop} [Decidable needed]
    (hneeded : needed → f.level p.dialect < power)
    (hspared : ¬ needed → power ≤ f.level p.dialect) :
    ∃ ps', Phrasing p power (if needed then [.openParen] ++ ts ++ [.closeParen] else ts) f ps' := by
  by_cases hparens : needed
  · rw [if_pos hparens]
    exact ⟨_, h.enclosed (hneeded hparens)⟩
  · rw [if_neg hparens]
    exact ⟨_, h.loosened (hspared hparens)⟩

/-- The layout of an expression by itself is that of a formula which binds its parts as tightly. -/
def HasPhrasing (p : Printer) (e : Expr) : Prop :=
  ∃ f ps, f.level p.dialect = p.dialect.level e ∧
    Phrasing p (f.level p.dialect) (p.dialect.layout none e) f ps

/-- Two expressions with a connective between them, under the node of the connective. -/
theorem exists_phrasing_connective (kind : ExprKind) {op : Operator} (hop : op.isConnective)
    {t : Token} (hlexemes : p.lexemes t = [.operator op])
    (hnext : Phrase.next? .operator (.token t) = some .operand)
    (hdepth : Token.depth? 0 [t] = some 0)
    (hneeded : ∀ e : Expr, e.isChainFree → needsParens (some kind) e.kind →
      p.dialect.level e < op.power)
    (hspared : ∀ e : Expr, needsParens (some kind) e.kind = false → op.power ≤ p.dialect.level e)
    {l r : Expr} (hl : l.isChainFree) (hr : r.isChainFree) (ihl : p.HasPhrasing l)
    (ihr : p.HasPhrasing r) :
    ∃ f ps, f.level p.dialect = op.power ∧ Phrasing p op.power
      (p.dialect.layout (some kind) l ++ [t] ++ p.dialect.layout (some kind) r) f ps := by
  have hunder : ∀ e : Expr, e.isChainFree → p.HasPhrasing e →
      ∃ f ps, Phrasing p op.power (p.dialect.layout (some kind) e) f ps := by
    rintro e he ⟨f, ps, hf, h⟩
    rw [Dialect.layout_eq_ite]
    refine ⟨f, exists_phrasing_ite h ?_ ?_⟩
    · rw [hf]
      exact hneeded e he
    · rw [hf, Bool.not_eq_true]
      exact hspared e
  obtain ⟨f, ps, hf⟩ := hunder l hl ihl
  obtain ⟨g, qs, hg⟩ := hunder r hr ihr
  exact ⟨.join op f g, _, Formula.level_join .., .connective hop hlexemes hnext hdepth hf hg⟩

/-- The layout of an expression without chains has no more parentheses than its formula takes. -/
theorem exists_phrasing (p : Printer) (he : e.isChainFree) : p.HasPhrasing e := by
  induction e with
  | symbol sym => exact ⟨.atom (p.atom .test sym), _, rfl, .symbol p sym⟩
  | not e ih =>
    obtain ⟨f, ps, hf, h⟩ := ih he
    have hlayout : p.dialect.layout none (.not e) =
        .not :: if p.dialect.splitsUnderNot e ∨ needsParens (some .not) e.kind then
          [.openParen] ++ p.dialect.layout none e ++ [.closeParen]
        else p.dialect.layout none e := by
      rw [Dialect.layout_not, p.dialect.layout_eq_ite (some .not)]
      by_cases hsplits : p.dialect.splitsUnderNot e <;> simp [hsplits]
    -- there are parentheses exactly where the operand binds less tightly than negation
    have hneeded : p.dialect.splitsUnderNot e ∨ needsParens (some .not) e.kind →
        f.level p.dialect < p.dialect.notPower := by
      rw [hf]
      exact Dialect.level_lt_notPower he
    have hspared : ¬ (p.dialect.splitsUnderNot e ∨ needsParens (some .not) e.kind) →
        p.dialect.notPower ≤ f.level p.dialect := by
      rw [hf, not_or, Bool.not_eq_true, Bool.not_eq_true]
      intro hnone
      exact p.dialect.notPower_le_level hnone.2 hnone.1
    obtain ⟨ps', h'⟩ := exists_phrasing_ite h hneeded hspared
    have hnot := h'.not
    rw [← hlayout] at hnot
    exact ⟨.not f, _, rfl, hnot⟩
  | compare op l r =>
    obtain ⟨ps, hlevel, h⟩ := Phrasing.comparison p op l r
    rw [← hlevel, ← Dialect.layout_compare] at h
    exact ⟨_, ps, hlevel, h⟩
  | and l r ihl ihr =>
    simp only [Expr.isChainFree, Bool.and_eq_true] at he
    obtain ⟨f, ps, hf, h⟩ := exists_phrasing_connective .and (t := .and) rfl rfl rfl rfl
      (fun _ => Dialect.level_lt_and) (fun _ => p.dialect.and_le_level) he.1 he.2 (ihl he.1)
      (ihr he.2)
    rw [← hf, ← Dialect.layout_and] at h
    exact ⟨f, ps, hf, h⟩
  | or l r ihl ihr =>
    simp only [Expr.isChainFree, Bool.and_eq_true] at he
    -- under a disjunction nothing has parentheses but a chain, and there is none
    have hneeded : ∀ e : Expr, e.isChainFree → needsParens (some .or) e.kind →
        p.dialect.level e < Operator.or.power := by
      intro e he hparens
      rw [Dialect.needsParens_or he] at hparens
      cases hparens
    obtain ⟨f, ps, hf, h⟩ := exists_phrasing_connective .or (t := .or) rfl rfl rfl rfl hneeded
      (fun e _ => p.dialect.or_le_level e) he.1 he.2 (ihl he.1) (ihr he.2)
    rw [← hf, ← Dialect.layout_or] at h
    exact ⟨f, ps, hf, h⟩
  | range low high => exact ⟨.atom (.name (p.rangeText low high)), _, rfl, .range p low high⟩
  | unknown => exact ⟨.atom (.literal true), _, rfl, .unknown p⟩
  | listLast | listCons => cases he

end Printer

/-! ## Leaving out a pair -/

/-- Without a matching pair the other parentheses still match. -/
theorem Token.depth?_erase {a b c : List Token}
    (h : depth? 0 (a ++ .openParen :: (b ++ .closeParen :: c)) = some 0)
    (hb : depth? 0 b = some 0) : depth? 0 (a ++ b ++ c) = some 0 := by
  rw [depth?_append] at h
  obtain ⟨outer, ha, hrest⟩ := Option.bind_eq_some_iff.mp h
  have hinner : depth? (outer + 1) b = some (outer + 1) := by
    simpa [Nat.add_comm] using depth?_add hb (outer + 1)
  have hsame : depth? outer b = some outer := by
    simpa using depth?_add hb outer
  have hpair : depth? outer (.openParen :: (b ++ .closeParen :: c)) = depth? outer c := by
    show depth? (outer + 1) (b ++ .closeParen :: c) = depth? outer c
    rw [depth?_append, hinner]
    rfl
  rw [hpair] at hrest
  rw [depth?_append, depth?_append, ha, Option.bind_some, hsame, Option.bind_some, hrest]

/-- Without any pair the other phrases are still in order. -/
theorem Phrase.after?_erase {x x' : Expected} {a b c : List Phrase}
    (h : after? x (a ++ token .openParen :: (b ++ token .closeParen :: c)) = some x') :
    after? x (a ++ b ++ c) = some x' := by
  rw [after?_append] at h
  obtain ⟨x₁, ha, hrest⟩ := Option.bind_eq_some_iff.mp h
  rw [after?_cons] at hrest
  obtain ⟨x₂, hopen, hrest⟩ := Option.bind_eq_some_iff.mp hrest
  rw [after?_append] at hrest
  obtain ⟨x₃, hb, hrest⟩ := Option.bind_eq_some_iff.mp hrest
  rw [after?_cons] at hrest
  obtain ⟨x₄, hclose, hc⟩ := Option.bind_eq_some_iff.mp hrest
  -- a parenthesis does not change what is awaited
  obtain rfl : x₁ = x₂ := by
    cases x₁ <;> cases hopen
    rfl
  obtain rfl : x₃ = x₄ := by
    cases x₃ <;> cases hclose
    rfl
  rw [after?_append, after?_append, ha, Option.bind_some, hb, Option.bind_some, hc]

/-- A pair of parentheses among the tokens of phrases is two of the phrases. -/
theorem Phrase.exists_split_pair {ps : List Phrase} {a b c : List Token}
    (h : ps.flatMap tokens = a ++ .openParen :: (b ++ .closeParen :: c)) :
    ∃ as bs cs, ps = as ++ token .openParen :: (bs ++ token .closeParen :: cs) ∧
      as.flatMap tokens = a ∧ bs.flatMap tokens = b ∧ cs.flatMap tokens = c := by
  obtain ⟨as, rest, rfl, ha, hrest⟩ := exists_split (.inl rfl) h
  obtain ⟨bs, cs, rfl, hb, hc⟩ := exists_split (.inr rfl) hrest
  exact ⟨as, bs, cs, rfl, ha, hb, hc⟩

namespace Printer

variable {p : Printer} {e : Expr}

/-- Whoever can tell the references of an expression can tell its tokens. -/
theorem tells_layout (hlegible : ∀ sym ∈ e.refs, p.isLegible sym) :
    ∀ t ∈ p.dialect.layout none e, p.Tells t := by
  intro t ht
  have hof := p.dialect.isOf_layout none e t ht
  cases t with
  | operand role sym => exact hlegible sym hof
  | _ => trivial

/-- The text of phrases in order is read as the reader reads their lexemes. -/
theorem ofRangedText?_text {ps : List Phrase} {x : Expected}
    (hafter : Phrase.after? .operand ps = some x)
    (htells : ∀ t ∈ ps.flatMap Phrase.tokens, p.Tells t) :
    Formula.ofRangedText? p.dialect (p.text (ps.flatMap Phrase.tokens)) =
      read p.dialect (.operand []) (ps.flatMap p.phraseLexemes) := by
  rw [Formula.ofRangedText?, rangedLexemes?_text hafter htells, Option.bind_some]

/-- A whole text is read as its formula. -/
theorem Phrasing.read_eq {power : Nat} {ts : List Token} {f : Formula} {ps : List Phrase}
    (h : Phrasing p power ts f ps) :
    read p.dialect (.operand []) (ps.flatMap p.phraseLexemes) = some f := by
  have hready : Ready p.dialect [] := trivial
  have hrest : Follows power [] := trivial
  have hread := h.reads hready (Nat.zero_le power) hrest
  rw [List.append_nil] at hread
  exact hread

/-- The text of an expression without chains is read as the formula of its phrases. -/
theorem ofRangedText?_layout {power : Nat} {f : Formula} {ps : List Phrase}
    (h : Phrasing p power (p.dialect.layout none e) f ps)
    (hlegible : ∀ sym ∈ e.refs, p.isLegible sym) :
    Formula.ofRangedText? p.dialect (p.text (p.dialect.layout none e)) = some f := by
  have htells := tells_layout hlegible
  rw [← h.tokens] at htells ⊢
  rw [ofRangedText?_text h.inOrder htells, h.read_eq]

/-- No text that is read as the same up to associativity opens fewer parentheses. -/
theorem opened_layout_le (he : e.isChainFree) (hlegible : ∀ sym ∈ e.refs, p.isLegible sym)
    {f g : Formula} {text : String}
    (hf : Formula.ofRangedText? p.dialect (p.text (p.dialect.layout none e)) = some f)
    (hg : Formula.ofRangedText? p.dialect text = some g) (hfg : f.Reassociates g) :
    ∃ ls ls', rangedLexemes? p.dialect (p.text (p.dialect.layout none e)) = some ls ∧
      rangedLexemes? p.dialect text = some ls' ∧ Lexeme.opened ls ≤ Lexeme.opened ls' := by
  obtain ⟨f', ps, -, h⟩ := p.exists_phrasing he
  obtain rfl : f' = f := Option.some.inj ((ofRangedText?_layout h hlegible).symm.trans hf)
  obtain ⟨ls', hls', hread⟩ := Option.bind_eq_some_iff.mp hg
  have htells := tells_layout hlegible
  rw [← h.tokens] at htells ⊢
  refine ⟨_, ls', rangedLexemes?_text h.inOrder htells, hls', ?_⟩
  rw [h.parens, Formula.parensUnder_of_le (Nat.le_refl _), hfg.parens_eq]
  exact parens_le_opened hread

/-- Where the phrases of a formula have no more parentheses than it takes, they are read without any
matching pair as a formula that is not the same up to associativity. -/
theorem exists_read_erase {f : Formula} {as bs cs : List Phrase} {ts : List Token} {power : Nat}
    (h : Phrasing p power ts f (as ++ .token .openParen :: (bs ++ .token .closeParen :: cs)))
    (hpower : power ≤ f.level p.dialect)
    (hmatch : Token.depth? 0 (bs.flatMap Phrase.tokens) = some 0) :
    ∃ g, read p.dialect (.operand []) ((as ++ bs ++ cs).flatMap p.phraseLexemes) = some g ∧
      ¬ f.Reassociates g := by
  have hbalanced : Token.depth? 0 ((as ++ bs ++ cs).flatMap Phrase.tokens) = some 0 := by
    have hall := h.balanced
    rw [← h.tokens] at hall
    simp only [List.flatMap_append, List.flatMap_cons] at hall ⊢
    exact Token.depth?_erase hall hmatch
  obtain ⟨g, hg⟩ := exists_read (p := p) (Phrase.after?_erase h.inOrder) hbalanced
  refine ⟨g, hg, ?_⟩
  intro hsame
  have hle : g.parens p.dialect ≤ Lexeme.opened ((as ++ bs ++ cs).flatMap p.phraseLexemes) :=
    parens_le_opened hg
  have hopened : f.parens p.dialect =
      Lexeme.opened ((as ++ bs ++ cs).flatMap p.phraseLexemes) + 1 := by
    rw [← Formula.parensUnder_of_le hpower, ← h.parens]
    simp [phraseLexemes, lexemes, Lexeme.parens]
    omega
  rw [← hsame.parens_eq p.dialect, hopened] at hle
  exact Nat.not_succ_le_self _ hle

/-- Each pair of parentheses in the text of an expression without chains is needed: the text is read
as a formula, and without the pair it is read as one that is not the same up to associativity. -/
theorem render_parens_minimal (p : Printer) {e : Expr} (he : e.isChainFree)
    (hrefs : ∀ sym ∈ e.refs, p.model.Resolves sym) (hlegible : ∀ sym ∈ e.refs, p.isLegible sym)
    {a b c : List Token}
    (hpair : p.dialect.layout none e = a ++ .openParen :: (b ++ .closeParen :: c))
    (hmatch : Token.depth? 0 b = some 0) :
    ∃ f g, (p.render none e).ending = .ok (p.text a ++ "(" ++ p.text b ++ ")" ++ p.text c) ∧
      Formula.ofRangedText? p.dialect (p.text a ++ "(" ++ p.text b ++ ")" ++ p.text c) = some f ∧
      Formula.ofRangedText? p.dialect (p.text a ++ p.text b ++ p.text c) = some g ∧
      ¬ f.Reassociates g := by
  obtain ⟨f, ps, -, h⟩ := p.exists_phrasing he
  have htext : p.text (p.dialect.layout none e) =
      p.text a ++ "(" ++ p.text b ++ ")" ++ p.text c := by
    have hopen : p.text [.openParen] = "(" := rfl
    have hclose : p.text [.closeParen] = ")" := rfl
    have hlist : a ++ .openParen :: (b ++ .closeParen :: c) =
        a ++ [.openParen] ++ b ++ [.closeParen] ++ c := by simp
    rw [hpair, hlist]
    simp only [text_append, hopen, hclose]
  have hread := ofRangedText?_layout h hlegible
  -- the pair is made of two phrases, so the others are phrases of the shorter text
  obtain ⟨as, bs, cs, rfl, rfl, rfl, rfl⟩ := Phrase.exists_split_pair (h.tokens.trans hpair)
  obtain ⟨g, hg, hdiffers⟩ := exists_read_erase h (Nat.le_refl _) hmatch
  have hless : Formula.ofRangedText? p.dialect
      (p.text ((as ++ bs ++ cs).flatMap Phrase.tokens)) = some g := by
    rw [ofRangedText?_text (Phrase.after?_erase h.inOrder), hg]
    intro t ht
    apply tells_layout hlegible
    rw [hpair]
    simp only [List.flatMap_append, List.mem_append] at ht
    rcases ht with (ht | ht) | ht <;> simp [ht]
  simp only [List.flatMap_append, text_append] at hless
  refine ⟨f, g, ?_, ?_, hless, hdiffers⟩
  · rw [← htext, p.render_of_resolves none hrefs]
    rfl
  · rw [← htext, hread]

/-- A disjunction with a range and a negated equality, in a conjunction. Both are in parentheses. -/
def guardedRange : Expr :=
  .and (.or (.symbol (.entry ⟨0⟩)) (.range (.entry ⟨1⟩) (.entry ⟨2⟩)))
    (.not (.compare .equal (.entry ⟨0⟩) (.entry ⟨1⟩)))

/-- The parentheses around the negated equality in the text of `guardedRange` are needed: without
them it is read as a formula that is not the same up to regrouping. -/
theorem guardedRange_parens :
    ∃ f g, ((ofTwoOptions .boolean).render none guardedRange).ending =
        .ok "((defined CONFIG_A) || [CONFIG_B 0]) && !(CONFIG_A==CONFIG_B)" ∧
      Formula.ofRangedText? .boolean
        "((defined CONFIG_A) || [CONFIG_B 0]) && !(CONFIG_A==CONFIG_B)" = some f ∧
      Formula.ofRangedText? .boolean
        "((defined CONFIG_A) || [CONFIG_B 0]) && !CONFIG_A==CONFIG_B" = some g ∧
      ¬ f.Reassociates g :=
  render_parens_minimal (ofTwoOptions .boolean) (e := guardedRange) rfl (by decide) (by decide)
    (a := [.openParen, .operand .test (.entry ⟨0⟩), .or, .openRange, .operand .plain (.entry ⟨1⟩),
      .rangeGap, .operand .plain (.entry ⟨2⟩), .closeRange, .closeParen, .and, .not])
    (b := [.operand .plain (.entry ⟨0⟩), .compare .equal, .operand .plain (.entry ⟨1⟩)])
    (c := []) rfl rfl

end Printer

end Kconfig
