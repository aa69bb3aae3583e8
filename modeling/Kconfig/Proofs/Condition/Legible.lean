import Kconfig.Proofs.Condition.Grammar
import Kconfig.Proofs.Condition.Meaning
import Kconfig.Proofs.Condition.Spelling

/-!
# Texts that can be scanned

Nothing marks where the text of a token ends, so a text can be told apart only because of what its
tokens are and in which order they stand. Names must be names in the dialect, and quoted texts must
hold no quote (`Printer.isLegible`). Tokens that end an operand and tokens that begin one take turns
with those that stand between operands (`Token.alternate`), so that no two words touch and no `!`
stands before a `=`. Then a scanner finds the lexemes of each token (`Printer.lexemes?_join`).
-/

namespace Kconfig

namespace Token

/-- Whether a token comes after an operand. -/
def followsOperand : Token → Bool
  | .and | .or | .compare _ | .ordering _ | .closeParen => true
  | _ => false

/-- Whether an operand is complete after a token. -/
def endsOperand : Token → Bool
  | .operand .. | .unsaid _ | .unknown | .closeParen => true
  | _ => false

/-- Whether tokens may follow each other, after an operand or where one must come. -/
def alternate : (afterOperand : Bool) → List Token → Bool
  | _, [] => true
  | afterOperand, t :: ts => t.followsOperand == afterOperand && alternate t.endsOperand ts

end Token

namespace Dialect

/-- The tokens of a comparison stand where an operand must come, and make one. -/
theorem alternate_layoutComparison (d : Dialect) (op : Comparison) (l r : SymbolRef)
    (rest : List Token) :
    Token.alternate false (d.layoutComparison op l r ++ rest) = Token.alternate true rest := by
  unfold layoutComparison layoutEquality
  split
  · cases d <;> rfl
  · split
    · rfl
    · split <;> rfl

/-- Between parentheses, what makes an operand makes one again. -/
theorem alternate_parens {ts : List Token}
    (h : ∀ rest, Token.alternate false (ts ++ rest) = Token.alternate true rest)
    (rest : List Token) :
    Token.alternate false ([.openParen] ++ ts ++ [.closeParen] ++ rest) =
      Token.alternate true rest := by
  calc Token.alternate false ([.openParen] ++ ts ++ [.closeParen] ++ rest)
      = Token.alternate false (ts ++ .closeParen :: rest) := by
        simp [Token.alternate, Token.followsOperand, Token.endsOperand]
    _ = Token.alternate true (.closeParen :: rest) := h _
    _ = Token.alternate true rest := rfl

/-- Parentheses stand where operands do. -/
theorem alternate_layout_of_none {d : Dialect} {e : Expr}
    (h : ∀ rest, Token.alternate false (d.layout none e ++ rest) = Token.alternate true rest)
    (enclosing : Option ExprKind) (rest : List Token) :
    Token.alternate false (d.layout enclosing e ++ rest) = Token.alternate true rest := by
  rw [layout_eq_ite]
  split
  · exact alternate_parens h rest
  · exact h rest

/-- The tokens of a condition stand where an operand must come, and make one. -/
theorem alternate_layout (d : Dialect) (enclosing : Option ExprKind) {e : Expr}
    (he : e.isCondition) (rest : List Token) :
    Token.alternate false (d.layout enclosing e ++ rest) = Token.alternate true rest := by
  apply alternate_layout_of_none
  clear rest
  induction e with
  | symbol s =>
    intro rest
    rfl
  | not e ih =>
    intro rest
    have hnot : ∀ ts, Token.alternate false (.not :: ts) = Token.alternate false ts := by
      intro ts
      rfl
    rw [layout_not, List.cons_append, hnot]
    split
    · -- the parentheses of a comparison under `!`
      exact alternate_parens (ih he) rest
    · exact alternate_layout_of_none (ih he) _ rest
  | compare op l r =>
    intro rest
    rw [layout_compare, alternate_layoutComparison]
  | and l r ihl ihr | or l r ihl ihr =>
    intro rest
    simp only [Expr.isCondition, Bool.and_eq_true] at he
    simp only [layout_and, layout_or, List.append_assoc]
    rw [alternate_layout_of_none (ihl he.1)]
    simp only [List.singleton_append, Token.alternate, Token.followsOperand, Token.endsOperand]
    rw [alternate_layout_of_none (ihr he.2)]
    rfl
  | listLast | listCons | range => cases he
  | unknown =>
    intro rest
    rfl

end Dialect

namespace Scanner

/-- The states in which the scanner may be before a token: between lexemes, at the end of a word
after an operand, or after a `!` where an operand must come. The list is the lexemes so far, the
latest first. -/
inductive Rests : (d : Dialect) → (afterOperand : Bool) → List Lexeme → Scanner → Prop
  | between (d : Dialect) (afterOperand : Bool) (ls : List Lexeme) :
    Rests d afterOperand ls ⟨.between, ls⟩
  | word (d : Dialect) (chars : List Char) (done : List Lexeme) :
    Rests d true (.ofWord d (String.ofList chars.reverse) :: done) ⟨.word chars, done⟩
  | not (done : List Lexeme) :
    Rests .boolean false (.not :: done) ⟨.sign '!', done⟩

variable {d : Dialect} {afterOperand : Bool} {ls : List Lexeme} {s : Scanner}

/-- Where a scanner rests, closing the text yields the lexemes so far. -/
theorem complete?_of_rests (h : Rests d afterOperand ls s) : s.complete? d = some ls := by
  cases h <;> rfl

/-- Before a token the scanner takes a character as the start of something, unless the character
goes on with a word or makes `!=`. -/
theorem step_of_rests (h : Rests d afterOperand ls s) {c : Char}
    (hc : if afterOperand then isWordChar c = false else c ≠ '=') :
    step d s c = start d ls c := by
  cases h with
  | between => rfl
  | word chars done =>
    simp only [if_true] at hc
    simp [step, hc]
  | not done =>
    have hpair : Lexeme.ofPair? .boolean '!' c = none := by
      unfold Lexeme.ofPair?
      split <;> simp_all
    simp [step, hpair, Lexeme.ofSign?]

/-- A word is scanned as one. -/
theorem run_ofWord (hs : Rests d false ls s) {x : String} (hne : x.toList ≠ [])
    (hall : x.toList.all isWordChar) :
    ∃ s', run d s x.toList = some s' ∧ Rests d true (.ofWord d x :: ls) s' := by
  cases hcs : x.toList with
  | nil => exact absurd hcs hne
  | cons c cs =>
    rw [hcs, List.all_cons, Bool.and_eq_true] at hall
    obtain ⟨hc, hcs'⟩ := hall
    have heq : c ≠ '=' := by
      rintro rfl
      exact absurd hc (by decide)
    refine ⟨⟨.word (cs.reverse ++ [c]), ls⟩, ?_, ?_⟩
    · rw [run_cons, step_of_rests hs (by simpa using heq), start_of_isWordChar d ls hc,
        Option.bind_some, run_word d ls hcs']
    · have hx : String.ofList (cs.reverse ++ [c]).reverse = x := by
        rw [List.reverse_append, List.reverse_reverse, List.reverse_singleton,
          List.singleton_append, ← hcs, String.ofList_toList]
      have := Rests.word d (cs.reverse ++ [c]) ls
      rwa [hx] at this

/-- A name is scanned as one. -/
theorem run_name (hs : Rests d false ls s) {x : String} (hx : d.isName x) :
    ∃ s', run d s x.toList = some s' ∧ Rests d true (.operand (.name x) :: ls) s' := by
  simp only [Dialect.isName, Bool.and_eq_true, Bool.not_eq_true', decide_eq_true_eq,
    List.isEmpty_eq_false_iff] at hx
  obtain ⟨⟨hne, hall⟩, hword⟩ := hx
  have := run_ofWord hs hne hall
  rwa [hword] at this

/-- The literals are words. -/
theorem run_literal (hs : Rests d false ls s) (b : Bool) :
    ∃ s', run d s (if b then "1" else "0").toList = some s' ∧
      Rests d true (.operand (.literal b) :: ls) s' := by
  have hword : Lexeme.ofWord d (if b then "1" else "0") = .operand (.literal b) := by
    cases b <;> cases d <;> rfl
  have := run_ofWord (x := if b then "1" else "0") hs (by cases b <;> decide)
    (by cases b <;> decide)
  rwa [hword] at this

/-- A quoted text is scanned as one. -/
theorem run_quote (hs : Rests .logic false ls s) {x : String} (hx : '"' ∉ x.toList) :
    run .logic s ("\"" ++ x ++ "\"").toList = some ⟨.between, .operand (.quoted x) :: ls⟩ := by
  have hstart : start .logic ls '"' = some ⟨.quoted [], ls⟩ := rfl
  have hquote : ("\"" ++ x ++ "\"").toList = '"' :: (x.toList ++ ['"']) := by
    simp [String.toList_append]
  rw [hquote, run_cons, step_of_rests hs (by decide), hstart, Option.bind_some, run_append,
    run_quoted _ _ hx]
  simp [step]

end Scanner

namespace Printer

/-- Whether a reader can tell where the text of a reference ends and what it is: options are called
by names of the dialect, and texts that are quoted hold no quote. -/
def isLegible (p : Printer) (sym : SymbolRef) : Bool :=
  match p.model.classOf sym with
  | .truth _ => true
  | .value name =>
    match p.dialect with
    | .boolean => true
    | .logic => '"' ∉ name.toList
  | .option name => p.dialect.isName (identifier p.namePrefix name)

/-- The lexemes of an atom's text. -/
def atomLexemes : Atom → List Lexeme
  | .defined x => [.openParen, .defined, .operand (.name x), .closeParen]
  | a => [.operand a]

/-- The lexemes of a token's text. Tokens that no condition has are left out. -/
def lexemes (p : Printer) : Token → List Lexeme
  | .operand role sym => atomLexemes (p.atom role sym)
  | .unsaid _ | .unknown => [.operand (.literal true)]
  | .openParen => [.openParen]
  | .closeParen => [.closeParen]
  | .not => [.not]
  | .and => [.operator .and]
  | .or => [.operator .or]
  | .compare op | .ordering (.comparison op) => [.operator (.compare op)]
  | .ordering _ | .gap | .caret | .openRange | .rangeGap | .closeRange => []

open Scanner

variable {p : Printer} {ls : List Lexeme} {s : Scanner}

/-- The test of a definition is scanned. -/
theorem run_defined (hs : Rests .boolean false ls s) {x : String} (hx : Dialect.boolean.isName x) :
    ∃ s', run .boolean s ("(defined " ++ x ++ ")").toList = some s' ∧
      Rests .boolean true ((atomLexemes (.defined x)).reverse ++ ls) s' := by
  have hopen : run .boolean s "(defined ".toList =
      some ⟨.between, .defined :: .openParen :: ls⟩ := by
    cases hs <;> rfl
  obtain ⟨s', hname, hs'⟩ := run_name (.between .boolean false (.defined :: .openParen :: ls)) hx
  refine ⟨⟨.between, .closeParen :: .operand (.name x) :: .defined :: .openParen :: ls⟩, ?_,
    .between ..⟩
  rw [String.toList_append, String.toList_append, run_append, run_append, hopen, Option.bind_some,
    hname, Option.bind_some]
  show (step .boolean s' ')').bind some = _
  rw [step_of_rests hs' (by decide)]
  rfl

/-- An operand is scanned. -/
theorem run_operand (role : Role) {sym : SymbolRef} (hsym : p.isLegible sym)
    (hs : Rests p.dialect false ls s) :
    ∃ s', run p.dialect s (p.className role (p.model.classOf sym)).toList = some s' ∧
      Rests p.dialect true ((atomLexemes (p.atom role sym)).reverse ++ ls) s' := by
  obtain ⟨m, namePrefix, d⟩ := p
  unfold isLegible at hsym
  unfold atom className
  cases hc : m.classOf sym with
  | truth b =>
    cases b with
    | false => exact run_literal hs false
    | true => exact run_literal hs true
  | value name =>
    simp only [hc] at hsym ⊢
    cases d with
    | boolean => exact run_literal hs false
    | logic => exact ⟨_, run_quote hs (of_decide_eq_true hsym), .between ..⟩
  | option name =>
    simp only [hc] at hsym ⊢
    cases d with
    | logic => exact run_name hs hsym
    | boolean =>
      cases role with
      | plain => exact run_name hs hsym
      | test => exact run_defined hs hsym

/-- A text that is scanned as a sign from between lexemes is scanned as one from anywhere, unless
it goes on with a word or with `!`. -/
theorem run_sign {d : Dialect} {afterOperand : Bool} (hs : Rests d afterOperand ls s) (c : Char)
    (text : List Char) (l : Lexeme)
    (hc : if afterOperand then isWordChar c = false else c ≠ '=')
    (h : run d ⟨.between, ls⟩ (c :: text) = some ⟨.between, l :: ls⟩) (b : Bool) :
    ∃ s', run d s (c :: text) = some s' ∧ Rests d b (l :: ls) s' := by
  refine ⟨_, ?_, .between ..⟩
  rw [run_cons, step_of_rests hs hc]
  exact h

/-- The text of a comparison sign is scanned. -/
theorem run_comparison {d : Dialect} (op : Comparison) (hs : Rests d true ls s) :
    ∃ s', run d s op.text.toList = some s' ∧
      Rests d false (.operator (.compare op) :: ls) s' := by
  cases op with
  | equal => exact run_sign hs '=' ['='] _ (by decide) (by cases d <;> rfl) false
  | unequal => exact run_sign hs '!' ['='] _ (by decide) (by cases d <;> rfl) false
  | less => exact run_sign hs ' ' ['<', ' '] _ (by decide) (by cases d <;> rfl) false
  | lessEqual => exact run_sign hs ' ' ['<', '=', ' '] _ (by decide) (by cases d <;> rfl) false
  | greater => exact run_sign hs ' ' ['>', ' '] _ (by decide) (by cases d <;> rfl) false
  | greaterEqual => exact run_sign hs ' ' ['>', '=', ' '] _ (by decide) (by cases d <;> rfl) false

/-- An opening parenthesis is scanned where an operand must come, and one must come after it. -/
theorem run_openParen {d : Dialect} (hs : Rests d false ls s) :
    ∃ s', run d s "(".toList = some s' ∧ Rests d false (.openParen :: ls) s' :=
  run_sign hs '(' [] _ (by decide) (by cases d <;> rfl) false

/-- A closing parenthesis is scanned behind an operand, and leaves the scanner behind one. -/
theorem run_closeParen {d : Dialect} (hs : Rests d true ls s) :
    ∃ s', run d s ")".toList = some s' ∧ Rests d true (.closeParen :: ls) s' :=
  run_sign hs ')' [] _ (by decide) (by cases d <;> rfl) true

/-- The text of a conjunction is scanned behind an operand, and an operand must come after it. -/
theorem run_and {d : Dialect} (hs : Rests d true ls s) :
    ∃ s', run d s d.andText.toList = some s' ∧ Rests d false (.operator .and :: ls) s' := by
  cases d with
  | boolean => exact run_sign hs ' ' ['&', '&', ' '] _ (by decide) rfl false
  | logic => exact run_sign hs ' ' ['a', 'n', 'd', ' '] _ (by decide) rfl false

/-- The text of a disjunction is scanned behind an operand, and an operand must come after it. -/
theorem run_or {d : Dialect} (hs : Rests d true ls s) :
    ∃ s', run d s d.orText.toList = some s' ∧ Rests d false (.operator .or :: ls) s' := by
  cases d with
  | boolean => exact run_sign hs ' ' ['|', '|', ' '] _ (by decide) rfl false
  | logic => exact run_sign hs ' ' ['o', 'r', ' '] _ (by decide) rfl false

/-- The negation is scanned. In the boolean dialect its sign is only told from `!=` by what comes
after it. -/
theorem run_not {d : Dialect} (hs : Rests d false ls s) :
    ∃ s', run d s d.notText.toList = some s' ∧ Rests d false (.not :: ls) s' := by
  cases d with
  | logic => exact run_sign hs ' ' ['n', 'o', 't', ' '] _ (by decide) rfl false
  | boolean =>
    have hstart : start .boolean ls '!' = some ⟨.sign '!', ls⟩ := rfl
    have htext : Dialect.boolean.notText.toList = ['!'] := rfl
    refine ⟨⟨.sign '!', ls⟩, ?_, .not ls⟩
    rw [htext, run_cons, step_of_rests hs (by decide), hstart]
    rfl

/-- The text of a token is scanned as the token's lexemes. -/
theorem run_tokenText {e : Expr} (he : e.isCondition) (hlegible : ∀ sym ∈ e.refs, p.isLegible sym)
    {t : Token} (ht : t.IsOf e) (hs : Rests p.dialect t.followsOperand ls s) :
    ∃ s', run p.dialect s (p.tokenText t).toList = some s' ∧
      Rests p.dialect t.endsOperand ((p.lexemes t).reverse ++ ls) s' := by
  cases t with
  | operand role sym => exact run_operand role (hlegible sym ht) hs
  | unsaid op => exact run_literal hs true
  | unknown => exact run_literal hs true
  | openParen => exact run_openParen hs
  | closeParen => exact run_closeParen hs
  | not => exact run_not hs
  | and => exact run_and hs
  | or => exact run_or hs
  | compare op => exact run_comparison op hs
  | ordering kind =>
    obtain ⟨op, rfl, -⟩ := ht
    exact run_comparison op hs
  | gap | caret | openRange | rangeGap | closeRange =>
    -- a condition has none of these
    exact absurd (he.symm.trans ht) (by decide)

/-- The texts of tokens that take turns are scanned one after the other. -/
theorem run_tokenTexts {e : Expr} (he : e.isCondition) (hlegible : ∀ sym ∈ e.refs, p.isLegible sym)
    {ts : List Token} (hts : ∀ t ∈ ts, t.IsOf e) {afterOperand : Bool}
    (halternate : Token.alternate afterOperand ts) (hs : Rests p.dialect afterOperand ls s) :
    ∃ s' b, run p.dialect s (ts.flatMap fun t => (p.tokenText t).toList) = some s' ∧
      Rests p.dialect b ((ts.flatMap p.lexemes).reverse ++ ls) s' := by
  induction ts generalizing afterOperand ls s with
  | nil => exact ⟨s, afterOperand, rfl, hs⟩
  | cons t ts ih =>
    rw [List.forall_mem_cons] at hts
    simp only [Token.alternate, Bool.and_eq_true, beq_iff_eq] at halternate
    obtain ⟨hfollows, hrest⟩ := halternate
    obtain ⟨s₁, hrun, hs₁⟩ := run_tokenText he hlegible hts.1 (hfollows ▸ hs)
    obtain ⟨s₂, b, hruns, hs₂⟩ := ih hts.2 hrest hs₁
    refine ⟨s₂, b, ?_, ?_⟩
    · rw [List.flatMap_cons, run_append, hrun, Option.bind_some, hruns]
    · rwa [List.flatMap_cons, List.reverse_append, List.append_assoc]

/-- The text of a condition is scanned as the lexemes of its tokens. -/
theorem lexemes?_layout {e : Expr} (he : e.isCondition) (hlegible : ∀ sym ∈ e.refs, p.isLegible sym)
    (enclosing : Option ExprKind) :
    lexemes? p.dialect (String.join ((p.dialect.layout enclosing e).map p.tokenText)) =
      some ((p.dialect.layout enclosing e).flatMap p.lexemes) := by
  have halternate : Token.alternate false (p.dialect.layout enclosing e) := by
    simpa [Token.alternate] using p.dialect.alternate_layout enclosing he []
  obtain ⟨s, b, hrun, hs⟩ := run_tokenTexts he hlegible (p.dialect.isOf_layout enclosing e)
    halternate (.between p.dialect false [])
  have htext : (String.join ((p.dialect.layout enclosing e).map p.tokenText)).toList =
      (p.dialect.layout enclosing e).flatMap fun t => (p.tokenText t).toList := by
    rw [String.toList_join, List.flatMap_map]
  unfold lexemes?
  rw [htext, hrun, Option.bind_some, complete?_of_rests hs]
  simp

end Printer

end Kconfig
