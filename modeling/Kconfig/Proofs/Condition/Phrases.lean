import Kconfig.Proofs.Condition.Ranges

/-!
# Which sequences of tokens can be read

The tokens of a range make sense only together, so the parts of a text are phrases: tokens, and
whole ranges. At each place a reader awaits an operand, the right side of a comparison or an
operator (`Expected`), and a phrase that is awaited there says what is awaited next
(`Phrase.next?`).

Where every phrase is awaited and the parentheses match (`Token.depth?`), the text can be scanned
(`Printer.rangedLexemes?_text`) and is read as something (`Printer.exists_read`). No level of
precedence is needed for that; it only decides what is read.
-/

namespace Kconfig

namespace Token

/-- How many parentheses are open after tokens, if none is closed that was not opened. -/
def depth? : (depth : Nat) → List Token → Option Nat
  | depth, [] => some depth
  | depth, .openParen :: ts => depth? (depth + 1) ts
  | 0, .closeParen :: _ => none
  | depth + 1, .closeParen :: ts => depth? depth ts
  | depth, _ :: ts => depth? depth ts

/-- Depths are counted through tokens in a row. -/
theorem depth?_append (depth : Nat) (a b : List Token) :
    depth? depth (a ++ b) = (depth? depth a).bind fun depth' => depth? depth' b := by
  induction a generalizing depth with
  | nil => rfl
  | cons t a ih =>
    cases t with
    | closeParen =>
      cases depth with
      | zero => rfl
      | succ depth => exact ih depth
    | openParen => exact ih (depth + 1)
    | _ => exact ih depth

/-- Parentheses that are open all the while do not matter. -/
theorem depth?_add {depth depth' : Nat} {ts : List Token} (h : depth? depth ts = some depth')
    (more : Nat) : depth? (depth + more) ts = some (depth' + more) := by
  induction ts generalizing depth with
  | nil =>
    obtain rfl := Option.some.inj h
    rfl
  | cons t ts ih =>
    cases t with
    | closeParen =>
      cases depth with
      | zero => cases h
      | succ depth =>
        rw [Nat.succ_add]
        exact ih h
    | openParen =>
      have hinner : depth? (depth + 1 + more) ts = some (depth' + more) := ih h
      rw [Nat.succ_add] at hinner
      exact hinner
    | _ => exact ih h

end Token

/-- A part of a text that makes sense by itself. -/
inductive Phrase where
  | token (t : Token)
  | range (low high : SymbolRef)

/-- What may come next in a text. -/
inductive Expected where
  /-- An operand, a negation or an opening parenthesis. -/
  | operand
  /-- The right side of a comparison. -/
  | side
  /-- An operator, a closing parenthesis or the end. -/
  | operator
deriving DecidableEq

/-- Whether an operand is complete. -/
def Expected.afterOperand : Expected → Bool
  | operator => true
  | operand | side => false

namespace Phrase

/-- The tokens of a phrase. -/
def tokens : Phrase → List Token
  | token t => [t]
  | range low high =>
    [.openRange, .operand .plain low, .rangeGap, .operand .plain high, .closeRange]

/-- What may come after a phrase, if it may come itself. -/
def next? : Expected → Phrase → Option Expected
  | .operand, token .openParen | .operand, token .not => some .operand
  | .operand, token (.operand ..) | .operand, token (.unsaid _) | .operand, token .unknown
  | .operand, range .. | .side, token (.operand ..) => some .operator
  | .operator, token .closeParen => some .operator
  | .operator, token .and | .operator, token .or => some .operand
  | .operator, token (.compare _) => some .side
  | .operator, token (.ordering (.comparison op)) => if op.isOrdering then some .side else none
  | _, _ => none

/-- What may come after phrases, if each of them may come where it does. -/
def after? (x : Expected) (ps : List Phrase) : Option Expected :=
  ps.foldlM next? x

/-- What may come is followed through phrases in a row. -/
theorem after?_append (x : Expected) (a b : List Phrase) :
    after? x (a ++ b) = (after? x a).bind fun x' => after? x' b := by
  simp only [after?, List.foldlM_append]
  rfl

/-- One phrase is taken, and the others from what may come after it. -/
theorem after?_cons (x : Expected) (ph : Phrase) (ps : List Phrase) :
    after? x (ph :: ps) = (next? x ph).bind fun x' => after? x' ps := rfl

/-- The sign of an ordering comparison may come where an operator may. -/
theorem ordering_of_next? {x x' : Expected} {kind : ExprKind}
    (h : next? x (token (.ordering kind)) = some x') :
    ∃ op : Comparison, x = .operator ∧ kind = .comparison op ∧ op.isOrdering ∧ x' = .side := by
  cases x with
  | operand | side => cases h
  | operator =>
    cases kind with
    | comparison op =>
      obtain ⟨hop, hx'⟩ := Option.ite_none_right_eq_some.mp h
      exact ⟨op, rfl, rfl, hop, (Option.some.inj hx').symm⟩
    | _ => cases h

/-- A token that may come next takes its turn with operands as it has to. -/
theorem turn_of_next? {x x' : Expected} {t : Token} (h : next? x (token t) = some x') :
    t.followsOperand = x.afterOperand ∧ t.endsOperand = x'.afterOperand := by
  cases t with
  | ordering kind =>
    obtain ⟨op, rfl, rfl, -, rfl⟩ := ordering_of_next? h
    exact ⟨rfl, rfl⟩
  | _ => cases x <;> cases h <;> exact ⟨rfl, rfl⟩

/-- It is a token of some condition: of one symbol, or of an unknown node. -/
theorem exists_isOf_of_next? {x x' : Expected} {t : Token} (h : next? x (token t) = some x') :
    ∃ e : Expr, e.isCondition ∧ t.IsOf e ∧ ∀ sym ∈ e.refs, ∃ role, t = .operand role sym := by
  cases t with
  | operand role sym =>
    refine ⟨.symbol sym, rfl, List.mem_singleton.mpr rfl, ?_⟩
    intro sym' hsym'
    exact ⟨role, by rw [List.mem_singleton.mp hsym']⟩
  | ordering kind =>
    obtain ⟨op, -, rfl, hop, -⟩ := ordering_of_next? h
    exact ⟨.unknown, rfl, ⟨op, rfl, hop⟩, nofun⟩
  | gap | caret | openRange | rangeGap | closeRange =>
    -- these come in no text but as parts of something
    cases x <;> cases h
  | _ => exact ⟨.unknown, rfl, trivial, nofun⟩

/-- No range has parentheses. -/
theorem eq_of_paren_mem {t : Token} (ht : t = .openParen ∨ t = .closeParen) {ph : Phrase}
    (h : t ∈ ph.tokens) : ph = token t := by
  cases ph with
  | token t' => rw [List.mem_singleton.mp h]
  | range low high => rcases ht with rfl | rfl <;> simp [tokens] at h

/-- A parenthesis is a phrase wherever it stands. -/
theorem exists_split {t : Token} (ht : t = .openParen ∨ t = .closeParen)
    {ps : List Phrase} {a b : List Token} (h : ps.flatMap tokens = a ++ t :: b) :
    ∃ before after, ps = before ++ token t :: after ∧ before.flatMap tokens = a ∧
      after.flatMap tokens = b := by
  induction ps generalizing a with
  | nil => simp at h
  | cons ph ps ih =>
    rw [List.flatMap_cons, List.append_eq_append_iff] at h
    -- the token stands after the first phrase, or in it
    rcases h with ⟨a', rfl, hrest⟩ | ⟨c, hph, hc⟩
    · obtain ⟨before, after, rfl, rfl, rfl⟩ := ih hrest
      exact ⟨ph :: before, after, rfl, rfl, rfl⟩
    · cases c with
      | nil =>
        obtain ⟨before, after, rfl, hbefore, rfl⟩ := ih (a := []) hc.symm
        refine ⟨ph :: before, after, rfl, ?_, rfl⟩
        rw [List.flatMap_cons, hbefore, hph]
        simp
      | cons t' c =>
        obtain ⟨rfl, hrest⟩ := List.cons.inj hc
        have hmem : t ∈ ph.tokens := by
          rw [hph]
          exact List.mem_append_right a List.mem_cons_self
        obtain rfl := eq_of_paren_mem ht hmem
        have hlength := congrArg List.length hph
        simp only [tokens, List.length_append, List.length_cons, List.length_nil] at hlength
        obtain rfl : a = [] := List.length_eq_zero_iff.mp (by omega)
        obtain rfl : c = [] := List.length_eq_zero_iff.mp (by omega)
        exact ⟨[], ps, rfl, rfl, hrest.symm⟩

end Phrase

namespace Reading

variable {d : Dialect}

/-- How many parentheses are open. -/
def opened : List Hole → Nat
  | [] => 0
  | .paren :: holes => opened holes + 1
  | .not :: holes | .after .. :: holes => opened holes

/-- Filling holes closes no parenthesis. -/
theorem opened_settle (power : Nat) (f : Formula) (holes : List Hole) :
    opened (settle d power f holes).2 = opened holes := by
  induction holes generalizing f with
  | nil => rfl
  | cons hole holes ih =>
    cases hole with
    | paren => rfl
    | not =>
      by_cases h : power ≤ d.notPower
      · simp only [settle, if_pos h, ih, opened]
      · simp only [settle, if_neg h]
    | after op g =>
      by_cases h : power ≤ op.power
      · simp only [settle, if_pos h, ih, opened]
      · simp only [settle, if_neg h]

/-- When all holes are filled that can be, a parenthesis is on top of the stack or nothing is. -/
theorem settle_zero (f : Formula) (holes : List Hole) :
    (settle d 0 f holes).2 = [] ∨ ∃ holes', (settle d 0 f holes).2 = .paren :: holes' := by
  induction holes generalizing f with
  | nil => exact .inl rfl
  | cons hole holes ih =>
    cases hole with
    | paren => exact .inr ⟨holes, rfl⟩
    | not =>
      rw [settle, if_pos (Nat.zero_le _)]
      exact ih _
    | after op g =>
      rw [settle, if_pos (Nat.zero_le _)]
      exact ih _

/-- With a parenthesis on top, what stands in it is complete. -/
theorem step_closeParen {f : Formula} {holes below : List Hole}
    (h : (settle d 0 f holes).2 = .paren :: below) :
    step d (complete f holes) .closeParen = some (complete (settle d 0 f holes).1 below) := by
  have hsettle : settle d 0 f holes = ((settle d 0 f holes).1, .paren :: below) := Prod.ext rfl h
  rw [step, hsettle]

/-- The states of a reader where a phrase is awaited and the given number of parentheses is open.
Where an operand must come, a negation may come. -/
def Awaits (d : Dialect) (x : Expected) (depth : Nat) : Reading → Prop
  | operand holes =>
    opened holes = depth ∧
      (x = .operand ∧ topPower d holes ≤ d.notPower ∨ x = .side)
  | complete _ holes => opened holes = depth ∧ x = .operator
  | asked _ | named .. => False

/-- An operand is complete after the lexemes of its atom. -/
theorem steps_atom (a : Atom) (holes : List Hole) :
    (Printer.atomLexemes a).foldlM (step d) (operand holes) =
      some (complete (.atom a) holes) := by
  cases a <;> rfl

end Reading

namespace Printer

variable {p : Printer}

/-- The text of tokens. -/
def text (p : Printer) (ts : List Token) : String :=
  String.join (ts.map p.tokenText)

/-- The text of tokens in a row is the text of the first, then that of the others. -/
theorem text_append (p : Printer) (a b : List Token) : p.text (a ++ b) = p.text a ++ p.text b := by
  apply String.toList_injective
  simp [text, String.toList_join]

/-- The lexemes of a phrase. -/
def phraseLexemes (p : Printer) : Phrase → List Lexeme
  | .token t => p.lexemes t
  | .range low high => [.operand (.name (p.rangeText low high))]

/-- Whether a reader can tell where the text of a token ends and what it is. -/
def Tells (p : Printer) : Token → Prop
  | .operand _ sym => p.isLegible sym
  | _ => True

/-! ## Every phrase is scanned -/

open Scanner in
/-- A phrase is scanned where it is awaited. -/
theorem run_phrase {x x' : Expected} {ph : Phrase} (hnext : ph.next? x = some x')
    (htells : ∀ t ∈ ph.tokens, p.Tells t) {ls : List Lexeme} {s : Scanner}
    (hs : Rests p.dialect x.afterOperand ls s) :
    ∃ s', RangeScanner.run p.dialect (.outside s) (p.text ph.tokens).toList = some (.outside s') ∧
      Rests p.dialect x'.afterOperand ((p.phraseLexemes ph).reverse ++ ls) s' := by
  cases ph with
  | range low high =>
    have hlegible : p.isLegible low ∧ p.isLegible high := by
      constructor
      · exact htells (.operand .plain low) (by simp [Phrase.tokens])
      · exact htells (.operand .plain high) (by simp [Phrase.tokens])
    have hx : x = .operand ∧ x' = .operator := by
      cases x <;> cases hnext
      exact ⟨rfl, rfl⟩
    obtain ⟨rfl, rfl⟩ := hx
    refine ⟨_, ?_, .between ..⟩
    exact run_range hlegible.1 hlegible.2 hs
  | token t =>
    have hone : p.text (Phrase.token t).tokens = p.tokenText t := by
      simp [text, Phrase.tokens, String.join]
    have hscanned : ∃ s', Scanner.run p.dialect s (p.tokenText t).toList = some s' ∧
        Rests p.dialect x'.afterOperand ((p.lexemes t).reverse ++ ls) s' := by
      obtain ⟨hfollows, hends⟩ := Phrase.turn_of_next? hnext
      obtain ⟨e, he, ht, hrefs⟩ := Phrase.exists_isOf_of_next? hnext
      rw [← hfollows] at hs
      rw [← hends]
      refine run_tokenText he ?_ ht hs
      intro sym hsym
      obtain ⟨role, rfl⟩ := hrefs sym hsym
      exact htells _ (List.mem_singleton.mpr rfl)
    obtain ⟨s', hrun, hs'⟩ := hscanned
    exact ⟨s', hone ▸ RangeScanner.run_outside hrun, hs'⟩

/-- Phrases are scanned where each of them is awaited. -/
theorem run_phrases {x x' : Expected} {ps : List Phrase} (hafter : Phrase.after? x ps = some x')
    (htells : ∀ t ∈ ps.flatMap Phrase.tokens, p.Tells t) {ls : List Lexeme} {s : Scanner}
    (hs : Scanner.Rests p.dialect x.afterOperand ls s) :
    ∃ s', RangeScanner.run p.dialect (.outside s) (p.text (ps.flatMap Phrase.tokens)).toList =
        some (.outside s') ∧
      Scanner.Rests p.dialect x'.afterOperand ((ps.flatMap p.phraseLexemes).reverse ++ ls) s' := by
  induction ps generalizing x ls s with
  | nil =>
    obtain rfl := Option.some.inj hafter
    exact ⟨s, rfl, hs⟩
  | cons ph ps ih =>
    obtain ⟨x₁, hnext, hrest⟩ := Option.bind_eq_some_iff.mp hafter
    rw [List.flatMap_cons, List.forall_mem_append] at htells
    obtain ⟨s₁, hrun, hs₁⟩ := run_phrase hnext htells.1 hs
    obtain ⟨s₂, hruns, hs₂⟩ := ih hrest htells.2 hs₁
    refine ⟨s₂, ?_, ?_⟩
    · rw [List.flatMap_cons, text_append, String.toList_append, RangeScanner.run_append, hrun,
        Option.bind_some, hruns]
    · rwa [List.flatMap_cons, List.reverse_append, List.append_assoc]

/-- The text of phrases is scanned as their lexemes, where each of them is awaited. -/
theorem rangedLexemes?_text {x : Expected} {ps : List Phrase}
    (hafter : Phrase.after? .operand ps = some x)
    (htells : ∀ t ∈ ps.flatMap Phrase.tokens, p.Tells t) :
    rangedLexemes? p.dialect (p.text (ps.flatMap Phrase.tokens)) =
      some (ps.flatMap p.phraseLexemes) := by
  obtain ⟨s, hrun, hs⟩ := run_phrases hafter htells (.between p.dialect false [])
  rw [rangedLexemes?, hrun, Option.bind_some, RangeScanner.complete?,
    Scanner.complete?_of_rests hs]
  simp

/-! ## Every phrase is read -/

/-- A phrase is read where an operand must come. -/
theorem steps_phrase_operand {x x' : Expected} {ph : Phrase} (hnext : ph.next? x = some x')
    {depth' : Nat} {holes : List Hole}
    (hdepth : Token.depth? (Reading.opened holes) ph.tokens = some depth')
    (hx : x = .operand ∧ Reading.topPower p.dialect holes ≤ p.dialect.notPower ∨ x = .side) :
    ∃ r', (p.phraseLexemes ph).foldlM (Reading.step p.dialect) (.operand holes) = some r' ∧
      r'.Awaits p.dialect x' depth' := by
  -- an operand may have a negation or a parenthesis before it; the side of a comparison may not
  rcases hx with ⟨rfl, htop⟩ | rfl
  · cases ph with
    | range low high =>
      obtain rfl := Option.some.inj hnext
      obtain rfl := Option.some.inj hdepth
      exact ⟨_, rfl, rfl, rfl⟩
    | token t =>
      cases t with
      | operand role sym =>
        obtain rfl := Option.some.inj hnext
        obtain rfl := Option.some.inj hdepth
        exact ⟨_, Reading.steps_atom _ holes, rfl, rfl⟩
      | unsaid | unknown =>
        obtain rfl := Option.some.inj hnext
        obtain rfl := Option.some.inj hdepth
        exact ⟨_, rfl, rfl, rfl⟩
      | openParen =>
        obtain rfl := Option.some.inj hnext
        obtain rfl := Option.some.inj hdepth
        exact ⟨_, rfl, rfl, .inl ⟨rfl, Nat.zero_le _⟩⟩
      | not =>
        obtain rfl := Option.some.inj hnext
        obtain rfl := Option.some.inj hdepth
        have hstep : (Reading.operand holes).step p.dialect .not =
            some (.operand (.not :: holes)) := if_pos htop
        exact ⟨_, congrArg (Option.bind · some) hstep, rfl, .inl ⟨rfl, Nat.le_refl _⟩⟩
      | ordering kind =>
        obtain ⟨op, hx, -⟩ := Phrase.ordering_of_next? hnext
        cases hx
      | _ => cases hnext
  · -- the right side of a comparison is an operand of one phrase
    cases ph with
    | range low high => cases hnext
    | token t =>
      cases t with
      | operand role sym =>
        obtain rfl := Option.some.inj hnext
        obtain rfl := Option.some.inj hdepth
        exact ⟨_, Reading.steps_atom _ holes, rfl, rfl⟩
      | ordering kind =>
        obtain ⟨op, hx, -⟩ := Phrase.ordering_of_next? hnext
        cases hx
      | _ => cases hnext

/-- A phrase is read where an operand is complete. -/
theorem steps_phrase_complete {x' : Expected} {ph : Phrase} (hnext : ph.next? .operator = some x')
    {depth' : Nat} {f : Formula} {holes : List Hole}
    (hdepth : Token.depth? (Reading.opened holes) ph.tokens = some depth') :
    ∃ r', (p.phraseLexemes ph).foldlM (Reading.step p.dialect) (.complete f holes) = some r' ∧
      r'.Awaits p.dialect x' depth' := by
  -- after an operator, its right operand must come
  have hoperator : ∀ op : Operator, ∃ holes',
      (Reading.complete f holes).step p.dialect (.operator op) = some (.operand holes') ∧
        Reading.opened holes' = Reading.opened holes ∧
        Reading.topPower p.dialect holes' = op.power := by
    intro op
    exact ⟨_, rfl, Reading.opened_settle op.power f holes, rfl⟩
  cases ph with
  | range low high => cases hnext
  | token t =>
    cases t with
    | closeParen =>
      obtain rfl := Option.some.inj hnext
      have hopened := Reading.opened_settle (d := p.dialect) 0 f holes
      rcases Reading.settle_zero (d := p.dialect) f holes with htop | ⟨below, htop⟩
      · -- there is a parenthesis to close
        rw [htop] at hopened
        rw [← hopened] at hdepth
        cases hdepth
      · rw [htop] at hopened
        rw [← hopened] at hdepth
        obtain rfl := Option.some.inj hdepth
        exact ⟨_, congrArg (Option.bind · some) (Reading.step_closeParen htop), rfl, rfl⟩
    | and =>
      obtain rfl := Option.some.inj hnext
      obtain rfl := Option.some.inj hdepth
      obtain ⟨holes', hstep, hopened, htop⟩ := hoperator .and
      refine ⟨_, congrArg (Option.bind · some) hstep, hopened, .inl ⟨rfl, ?_⟩⟩
      rw [htop]
      exact Nat.le_of_lt (Reading.power_lt_notPower rfl)
    | or =>
      obtain rfl := Option.some.inj hnext
      obtain rfl := Option.some.inj hdepth
      obtain ⟨holes', hstep, hopened, htop⟩ := hoperator .or
      refine ⟨_, congrArg (Option.bind · some) hstep, hopened, .inl ⟨rfl, ?_⟩⟩
      rw [htop]
      exact Nat.le_of_lt (Reading.power_lt_notPower rfl)
    | compare op =>
      obtain rfl := Option.some.inj hnext
      obtain rfl := Option.some.inj hdepth
      obtain ⟨holes', hstep, hopened, -⟩ := hoperator (.compare op)
      exact ⟨_, congrArg (Option.bind · some) hstep, hopened, .inr rfl⟩
    | ordering kind =>
      obtain ⟨op, -, rfl, -, rfl⟩ := Phrase.ordering_of_next? hnext
      obtain rfl := Option.some.inj hdepth
      obtain ⟨holes', hstep, hopened, -⟩ := hoperator (.compare op)
      exact ⟨_, congrArg (Option.bind · some) hstep, hopened, .inr rfl⟩
    | _ => cases hnext

/-- A phrase is read where it is awaited. -/
theorem steps_phrase {x x' : Expected} {ph : Phrase} (hnext : ph.next? x = some x')
    {depth depth' : Nat} (hdepth : Token.depth? depth ph.tokens = some depth') {r : Reading}
    (hr : r.Awaits p.dialect x depth) :
    ∃ r', (p.phraseLexemes ph).foldlM (Reading.step p.dialect) r = some r' ∧
      r'.Awaits p.dialect x' depth' := by
  cases r with
  | asked | named => exact hr.elim
  | operand holes =>
    obtain ⟨rfl, hx⟩ := hr
    exact steps_phrase_operand hnext hdepth hx
  | complete f holes =>
    obtain ⟨rfl, rfl⟩ := hr
    exact steps_phrase_complete hnext hdepth

/-- Phrases are read where each of them is awaited. -/
theorem steps_phrases {x x' : Expected} {ps : List Phrase} (hafter : Phrase.after? x ps = some x')
    {depth depth' : Nat}
    (hdepth : Token.depth? depth (ps.flatMap Phrase.tokens) = some depth') {r : Reading}
    (hr : r.Awaits p.dialect x depth) :
    ∃ r', (ps.flatMap p.phraseLexemes).foldlM (Reading.step p.dialect) r = some r' ∧
      r'.Awaits p.dialect x' depth' := by
  induction ps generalizing x depth r with
  | nil =>
    obtain rfl := Option.some.inj hafter
    obtain rfl := Option.some.inj hdepth
    exact ⟨r, rfl, hr⟩
  | cons ph ps ih =>
    obtain ⟨x₁, hnext, hrest⟩ := Option.bind_eq_some_iff.mp hafter
    rw [List.flatMap_cons, Token.depth?_append] at hdepth
    obtain ⟨depth₁, hfirst, hdepth⟩ := Option.bind_eq_some_iff.mp hdepth
    obtain ⟨r₁, hsteps, hr₁⟩ := steps_phrase hnext hfirst hr
    obtain ⟨r₂, hmore, hr₂⟩ := ih hrest hdepth hr₁
    refine ⟨r₂, ?_, hr₂⟩
    rw [List.flatMap_cons, List.foldlM_append, hsteps]
    exact hmore

/-- Where each phrase is awaited and the parentheses match, something is read. -/
theorem exists_read {ps : List Phrase} (hafter : Phrase.after? .operand ps = some .operator)
    (hdepth : Token.depth? 0 (ps.flatMap Phrase.tokens) = some 0) :
    ∃ f, Reading.read p.dialect (.operand []) (ps.flatMap p.phraseLexemes) = some f := by
  obtain ⟨r, hsteps, hr⟩ := steps_phrases (p := p) hafter hdepth (r := .operand [])
    ⟨rfl, .inl ⟨rfl, Nat.zero_le _⟩⟩
  cases r with
  | asked | named => exact hr.elim
  | operand holes =>
    rcases hr.2 with ⟨hx, -⟩ | hx <;> cases hx
  | complete f holes =>
    have hopened := Reading.opened_settle (d := p.dialect) 0 f holes
    rw [hr.1] at hopened
    rcases Reading.settle_zero (d := p.dialect) f holes with htop | ⟨below, htop⟩
    · refine ⟨(Reading.settle p.dialect 0 f holes).1, ?_⟩
      have hsettle : Reading.settle p.dialect 0 f holes =
          ((Reading.settle p.dialect 0 f holes).1, []) := Prod.ext rfl htop
      rw [Reading.read, hsteps, Option.bind_some, Reading.formula?, hsettle]
    · -- no parenthesis is open at the end
      rw [htop] at hopened
      cases hopened

end Printer

end Kconfig
