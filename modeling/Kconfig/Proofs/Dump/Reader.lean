import Kconfig.Proofs.Dump.Outline
import Kconfig.Proofs.Dump.Shown
import Kconfig.Proofs.Dump.Soundness

/-!
# Dumped expressions can be read back

A reader of a dumped expression cuts the text into signs and words: blanks, brackets, commas, `!`
and `=` are signs, and a word is what stands between signs. Then it goes through them once, with a
stack of what is open (`Reader.Frame`). It knows what an opened parenthesis is about only when the
first operand is complete, by the sign after it; a `!` before an operand negates it, and one after
an operand goes on to `!=`.

Where the dump leaves out nothing of an expression and shows each symbol by its id, the expression
is read back, whatever stands around it (`Reader.reads_shown`), so no other expression of any model
is shown by the same text (`Dump.exprText_reads_back`).
-/

namespace Kconfig

/-! ## What is shown as it is -/

/-- Whether the dump shows every node of an expression. Ordering comparisons are shown as `y`, and
nodes that are not known cannot be shown. -/
def Expr.isShowable : Expr → Bool
  | symbol _ | listLast _ | range _ _ => true
  | not e => e.isShowable
  | compare op _ _ => !op.isOrdering
  | and l r => l.isShowable && r.isShowable
  | or l r => l.isShowable && r.isShowable
  | listCons _ tail => tail.isShowable
  | unknown => false

/-- Whether an id leads to a symbol that the dump shows by the id: one with a type that is no
constant and that the parser did not make up without a name, unless it is a choice. -/
def Model.ShowsById (m : Model) (id : SymbolId) : Prop :=
  ∃ s, m.symbol? id = some s ∧ s.kind ≠ .unknown ∧ ¬ s.isConstant ∧
    ¬ (s.flags.contains .auto ∧ ¬ s.isChoice ∧ s.name = none)

namespace Dump

variable {m : Model}

/-- A symbol that is shown by its id has the label of the id. -/
theorem shownSymbol_of_showsById {id : SymbolId} (h : m.ShowsById id) :
    shownSymbol m (.entry id) = id.label := by
  obtain ⟨s, hs, hkind, hconstant, hauto⟩ := h
  have hvalue : ¬ (s.isConstant || s.kind = .unknown) := by simp [hconstant, hkind]
  have hmade : ¬ (s.flags.contains .auto && !s.isChoice && s.name.isNone) := by
    simpa [and_assoc] using hauto
  rw [shownSymbol_of_symbol? hs, entryText, if_neg hvalue, if_neg hmade]

/-- Every token of an expression that can be shown is shown as it is. -/
theorem isLiteral_of_isShowable {e : Expr} (he : e.isShowable)
    (h : ∀ sym ∈ e.refs, m.Resolves sym) : ∀ t ∈ verbatim e, t.IsLiteral m := by
  induction e with
  | symbol s => exact List.forall_mem_singleton.mpr (h s List.mem_cons_self)
  | not e ih =>
    rw [verbatim_not, List.forall_mem_cons]
    exact ⟨trivial, ih he h⟩
  | compare op l r =>
    rw [Expr.refs_compare, List.forall_mem_cons, List.forall_mem_singleton] at h
    rw [verbatim_compare]
    cases op with
    | equal | unequal =>
      simp only [verbatimComparison, List.forall_mem_cons]
      exact ⟨trivial, h.1, trivial, h.2, trivial, List.forall_mem_nil _⟩
    | less | lessEqual | greater | greaterEqual => cases he
  | and l r ihl ihr | or l r ihl ihr =>
    rw [Expr.isShowable, Bool.and_eq_true] at he
    simp only [Expr.refs_and, Expr.refs_or, List.forall_mem_append] at h
    simp only [verbatim_and, verbatim_or, List.forall_mem_append, List.forall_mem_singleton]
    exact ⟨⟨⟨⟨trivial, ihl he.1 h.1⟩, trivial⟩, ihr he.2 h.2⟩, trivial⟩
  | listLast a =>
    rw [Expr.refs_listLast, List.forall_mem_singleton] at h
    simp only [verbatim_listLast, List.forall_mem_cons]
    exact ⟨trivial, h, trivial, List.forall_mem_nil _⟩
  | listCons a tail ih =>
    rw [Expr.refs_listCons, List.forall_mem_cons] at h
    simp only [verbatim_listCons, List.forall_mem_append, List.forall_mem_cons]
    exact ⟨⟨⟨trivial, h.1, trivial, List.forall_mem_nil _⟩, ih he h.2⟩, trivial,
      List.forall_mem_nil _⟩
  | range low high =>
    rw [Expr.refs_range, List.forall_mem_cons, List.forall_mem_singleton] at h
    simp only [verbatim_range, List.forall_mem_cons]
    exact ⟨trivial, h.1, trivial, h.2, trivial, List.forall_mem_nil _⟩
  | unknown => cases he

namespace Reader

/-! ## Signs and words -/

/-- A part of the text of an expression. -/
inductive Part where
  | sign (c : Char)
  | word (w : String)
deriving DecidableEq

/-- Whether a character is a part by itself. -/
def isSign (c : Char) : Bool :=
  c ∈ "()[],!= ".toList

/-- Whether characters are a word: there are some, and none is a sign. -/
def isUnbroken (w : List Char) : Bool :=
  !w.isEmpty && w.all (! isSign ·)

/-- A word is broken by no sign, and is not empty. -/
theorem isUnbroken_iff {w : List Char} :
    isUnbroken w ↔ w ≠ [] ∧ ∀ c ∈ w, isSign c = false := by
  simp [isUnbroken]

/-- The parts of a text, after the characters of a word, the latest first. -/
def partsAfter : (word : List Char) → List Char → List Part
  | [], [] => []
  | c :: word, [] => [.word (String.ofList (c :: word).reverse)]
  | [], c :: cs => if isSign c then .sign c :: partsAfter [] cs else partsAfter [c] cs
  | d :: word, c :: cs =>
    if isSign c then .word (String.ofList (d :: word).reverse) :: .sign c :: partsAfter [] cs
    else partsAfter (c :: d :: word) cs

/-- The signs and words of a text. -/
def parts (text : List Char) : List Part :=
  partsAfter [] text

/-- Whether a word ends where a text goes on. -/
def Ends (text : List Char) : Prop :=
  ∀ c ∈ text.head?, isSign c

/-- A sign is a part by itself. -/
theorem parts_sign {c : Char} (h : isSign c) (cs : List Char) :
    parts (c :: cs) = .sign c :: parts cs :=
  if_pos h

/-- A word is one part, where it ends. -/
theorem partsAfter_of_ends {d : Char} {word text : List Char} (h : Ends text) :
    partsAfter (d :: word) text = .word (String.ofList (d :: word).reverse) :: parts text := by
  cases text with
  | nil => rfl
  | cons c cs =>
    have hc : isSign c := h c rfl
    rw [partsAfter, if_pos hc, parts_sign hc, parts]

/-- A word goes on to the next sign. -/
theorem parts_word {w text : List Char} (hword : isUnbroken w) (h : Ends text) :
    parts (w ++ text) = .word (String.ofList w) :: parts text := by
  obtain ⟨hne, hw⟩ := isUnbroken_iff.mp hword
  have hafter : ∀ (d : Char) (word w : List Char), (∀ c ∈ w, isSign c = false) →
      partsAfter (d :: word) (w ++ text) =
        .word (String.ofList ((d :: word).reverse ++ w)) :: parts text := by
    intro d word w hw
    induction w generalizing d word with
    | nil => rw [List.nil_append, partsAfter_of_ends h, List.append_nil]
    | cons c w ih =>
      rw [List.forall_mem_cons] at hw
      have hc : ¬ isSign c := by simp [hw.1]
      rw [List.cons_append, partsAfter, if_neg hc, ih c (d :: word) hw.2, List.reverse_cons,
        List.append_assoc, List.singleton_append]
  cases w with
  | nil => exact absurd rfl hne
  | cons c w =>
    rw [List.forall_mem_cons] at hw
    have hc : ¬ isSign c := by simp [hw.1]
    rw [parts, List.cons_append, partsAfter, if_neg hc, hafter c [] w hw.2, List.reverse_singleton,
      List.singleton_append]

/-! ## The reader -/

/-- The reference that a word is. -/
def symbolRef? (word : String) : Option SymbolRef :=
  match word.toList with
  | ['y'] => some (.truth .yes)
  | ['m'] => some (.truth .mod)
  | ['n'] => some (.truth .no)
  | 'S' :: '@' :: digits =>
    (Outline.digits? (String.ofList digits)).bind fun n =>
      if n < UInt32.size then some (.entry (.ofPosition n)) else none
  | _ => none

/-- What is open where an operand comes next. -/
inductive Frame where
  /-- A `!`. -/
  | not
  /-- A parenthesis without an operand. -/
  | first
  | equal (left : SymbolRef)
  | unequal (left : SymbolRef)
  | and (left : Expr)
  | or (left : Expr)
  /-- A link of a chain, whose successor comes next. -/
  | link (member : SymbolRef)
  /-- A bracket without an operand. -/
  | low
  | high (low : SymbolRef)

/-- Where the reader stands, with what is open, the innermost first. -/
inductive State where
  /-- Before an operand. -/
  | operand (frames : List Frame)
  /-- After an operand. -/
  | complete (frames : List Frame) (e : Expr)
  /-- After the `!` of an inequality. -/
  | unequal (frames : List Frame) (left : SymbolRef)
  /-- After the blank that follows an operand. -/
  | connective (frames : List Frame) (left : Expr)
  /-- Before the blank that follows a connective. -/
  | gap (frames : List Frame)

namespace State

/-- After an operand, to which each `!` before it is put. -/
def settle : List Frame → Expr → State
  | .not :: frames, e => settle frames (.not e)
  | frames, e => complete frames e

/-- After an operand and a closing parenthesis. -/
def close? : List Frame → Expr → Option State
  | .first :: frames, .symbol a => some (settle frames (.listLast a))
  | .equal l :: frames, .symbol r => some (settle frames (.compare .equal l r))
  | .unequal l :: frames, .symbol r => some (settle frames (.compare .unequal l r))
  | .and l :: frames, r => some (settle frames (.and l r))
  | .or l :: frames, r => some (settle frames (.or l r))
  | .link a :: frames, tail => some (settle frames (.listCons a tail))
  | _, _ => none

/-- After an operand and another sign. -/
def goOn? : Char → List Frame → Expr → Option State
  | ' ', .first :: frames, e => some (connective frames e)
  | '=', .first :: frames, .symbol a => some (operand (.equal a :: frames))
  | '!', .first :: frames, .symbol a => some (unequal frames a)
  | ',', .low :: frames, .symbol a => some (operand (.high a :: frames))
  | ']', .high a :: frames, .symbol b => some (settle frames (.range a b))
  | _, _, _ => none

/-- After an operand, a blank and a connective. -/
def join? : String → List Frame → Expr → Option State
  | "&amp;&amp;", frames, l => some (gap (.and l :: frames))
  | "||", frames, l => some (gap (.or l :: frames))
  | "^", frames, .symbol a => some (gap (.link a :: frames))
  | _, _, _ => none

/-- One part. -/
def step : State → Part → Option State
  | operand frames, .sign '!' => some (operand (.not :: frames))
  | operand frames, .sign '(' => some (operand (.first :: frames))
  | operand frames, .sign '[' => some (operand (.low :: frames))
  | operand frames, .word w => (symbolRef? w).map fun sym => settle frames (.symbol sym)
  | complete frames e, .sign ')' => close? frames e
  | complete frames e, .sign c => goOn? c frames e
  | unequal frames l, .sign '=' => some (operand (.unequal l :: frames))
  | connective frames l, .word w => join? w frames l
  | gap frames, .sign ' ' => some (operand frames)
  | _, _ => none

/-- All the parts of a text. -/
def run (s : State) (ps : List Part) : Option State :=
  ps.foldlM step s

/-- A part is read by one step, and the others from there. -/
theorem run_cons (s : State) (p : Part) (ps : List Part) :
    run s (p :: ps) = (step s p).bind fun s' => run s' ps := rfl

end State

/-- Reads the text of an expression. -/
def expr? (text : String) : Option Expr :=
  (State.run (.operand []) (parts text.toList)).bind fun
    | .complete [] e => some e
    | _ => none

example : expr? "(S@0 &amp;&amp; !(S@1!=m))" =
    some (.and (.symbol (.entry ⟨0⟩)) (.not (.compare .unequal (.entry ⟨1⟩) (.truth .mod)))) := by
  decide +kernel

/-! ## What is shown is read -/

/-- A letter or a digit is no sign. -/
theorem isSign_eq_false_of_isAlphanum {c : Char} (h : c.isAlphanum) : isSign c = false := by
  have hsigns : "()[],!= ".toList.all (! Char.isAlphanum ·) := by decide
  rw [Bool.eq_false_iff]
  intro hsign
  have hother := List.all_eq_true.mp hsigns c (of_decide_eq_true hsign)
  rw [h] at hother
  cases hother

/-- The label of an id is read back as the id. -/
theorem symbolRef?_label (id : SymbolId) : symbolRef? id.label = some (.entry id) := by
  have hchars : id.label.toList = 'S' :: '@' :: (toString id.position).toList := by
    simp [SymbolId.label]
  have hlt : id.position < UInt32.size := id.index.toNat_lt
  rw [symbolRef?, hchars]
  simp only [String.ofList_toList, Outline.digits?_toString, Option.bind_some, if_pos hlt,
    SymbolId.ofPosition_position]

/-- A truth value and the id of an entry are words, and are read as what they stand for. -/
theorem symbolRef?_shownSymbol {sym : SymbolRef} (h : ∀ id, sym = .entry id → m.ShowsById id) :
    isUnbroken (shownSymbol m sym).toList ∧ symbolRef? (shownSymbol m sym) = some sym := by
  cases sym with
  | truth t =>
    have hletter : isUnbroken t.letter.toList ∧ symbolRef? t.letter = some (.truth t) := by
      cases t <;> decide
    exact hletter
  | entry id =>
    rw [shownSymbol_of_showsById (h id rfl)]
    refine ⟨isUnbroken_iff.mpr ⟨by simp [SymbolId.label], ?_⟩, symbolRef?_label id⟩
    rw [SymbolId.label, String.toList_append, List.forall_mem_append]
    constructor
    · exact (isUnbroken_iff.mp (by decide : isUnbroken "S@".toList)).2
    · exact fun c hc => isSign_eq_false_of_isAlphanum (isWord_number id.position c hc)

/-- A word ends where a sign follows. -/
theorem ends_cons {c : Char} (h : isSign c) (cs : List Char) : Ends (c :: cs) := by
  rintro _ ⟨⟩
  exact h

/-- A sign is read by one step, and the text behind it from there. -/
theorem State.run_sign {s s' : State} {c : Char} (hc : isSign c)
    (h : State.step s (.sign c) = some s') (cs : List Char) :
    State.run s (parts (c :: cs)) = State.run s' (parts cs) := by
  rw [parts_sign hc, run_cons, h, Option.bind_some]

/-- An operand that no negation stands before is complete. -/
theorem State.settle_of_ne_not {frame : Frame} (h : frame ≠ .not) (frames : List Frame)
    (e : Expr) : State.settle (frame :: frames) e = .complete (frame :: frames) e := by
  cases frame with
  | not => exact absurd rfl h
  | _ => rfl

open State

/-- Whether a text is read as an expression, whatever is open before it and wherever it ends. -/
def Reads (text : String) (e : Expr) : Prop :=
  ∀ (frames : List Frame) (rest : List Char), Ends rest →
    run (.operand frames) (parts (text.toList ++ rest)) = run (settle frames e) (parts rest)

/-- A symbol is read back, if it is a truth value or shown by its id. -/
theorem reads_symbol {sym : SymbolRef} (h : ∀ id, sym = .entry id → m.ShowsById id) :
    Reads (shownSymbol m sym) (.symbol sym) := by
  intro frames rest hrest
  obtain ⟨hword, hsym⟩ := symbolRef?_shownSymbol h
  have hstep : step (.operand frames) (.word (shownSymbol m sym)) =
      some (settle frames (.symbol sym)) := by
    rw [step, hsym, Option.map_some]
  rw [parts_word hword hrest, String.ofList_toList, run_cons, hstep, Option.bind_some]

namespace Reads

variable {text a b : String} {e l r : Expr}

/-- A negation is read back, if its operand is. -/
theorem not (h : Reads text e) : Reads ("!" ++ text) e.not := by
  intro frames rest hrest
  rw [String.toList_append, List.append_assoc]
  exact (run_sign rfl rfl _).trans (h (.not :: frames) rest hrest)

/-- Two operands in parentheses with a connective between them. -/
theorem join (hl : Reads a l) (hr : Reads b r) {w : String} (frame : Frame) (hframe : frame ≠ .not)
    (hword : isUnbroken w.toList)
    (hjoin : ∀ frames, join? w frames l = some (.gap (frame :: frames)))
    (hclose : ∀ frames, close? (frame :: frames) r = some (settle frames e)) :
    Reads ("(" ++ a ++ " " ++ w ++ " " ++ b ++ ")") e := by
  intro frames rest hrest
  have htext : ("(" ++ a ++ " " ++ w ++ " " ++ b ++ ")").toList ++ rest =
      '(' :: (a.toList ++ ' ' :: (w.toList ++ ' ' :: (b.toList ++ ')' :: rest))) := by
    simp
  have hblank : step (.complete (.first :: frames) l) (.sign ' ') =
      some (.connective frames l) := by
    cases l <;> rfl
  have hend : step (.complete (frame :: frames) r) (.sign ')') = some (settle frames e) :=
    hclose frames
  have hconnective : step (.connective frames l) (.word w) = some (.gap (frame :: frames)) :=
    hjoin frames
  calc run (.operand frames) (parts _)
      = run (.operand (.first :: frames)) (parts _) := by rw [htext, run_sign rfl rfl]
    _ = run (.complete (.first :: frames) l) (parts _) := hl _ _ (ends_cons rfl _)
    _ = run (.connective frames l) (parts _) := run_sign rfl hblank _
    _ = run (.gap (frame :: frames)) (parts _) := by
      rw [parts_word hword (ends_cons rfl _), String.ofList_toList, run_cons, hconnective,
        Option.bind_some]
    _ = run (.operand (frame :: frames)) (parts _) := run_sign rfl rfl _
    _ = run (.complete (frame :: frames) r) (parts _) := by
      rw [hr _ _ (ends_cons rfl rest), settle_of_ne_not hframe]
    _ = run (settle frames e) (parts rest) := run_sign rfl hend rest

variable {x y : SymbolRef}

/-- An equality is read back, if its sides are. -/
theorem equal (hx : Reads a (.symbol x)) (hy : Reads b (.symbol y)) :
    Reads ("(" ++ a ++ "=" ++ b ++ ")") (.compare .equal x y) := by
  intro frames rest hrest
  have htext : ("(" ++ a ++ "=" ++ b ++ ")").toList ++ rest =
      '(' :: (a.toList ++ '=' :: (b.toList ++ ')' :: rest)) := by
    simp
  calc run (.operand frames) (parts _)
      = run (.operand (.first :: frames)) (parts _) := by rw [htext, run_sign rfl rfl]
    _ = run (.complete (.first :: frames) (.symbol x)) (parts _) := hx _ _ (ends_cons rfl _)
    _ = run (.operand (.equal x :: frames)) (parts _) := run_sign rfl rfl _
    _ = run (.complete (.equal x :: frames) (.symbol y)) (parts _) := hy _ _ (ends_cons rfl rest)
    _ = run (settle frames (.compare .equal x y)) (parts rest) := run_sign rfl rfl rest

/-- The sign of an inequality is read as the two signs that it is. -/
theorem unequal (hx : Reads a (.symbol x)) (hy : Reads b (.symbol y)) :
    Reads ("(" ++ a ++ "!=" ++ b ++ ")") (.compare .unequal x y) := by
  intro frames rest hrest
  have htext : ("(" ++ a ++ "!=" ++ b ++ ")").toList ++ rest =
      '(' :: (a.toList ++ '!' :: '=' :: (b.toList ++ ')' :: rest)) := by
    simp
  calc run (.operand frames) (parts _)
      = run (.operand (.first :: frames)) (parts _) := by rw [htext, run_sign rfl rfl]
    _ = run (.complete (.first :: frames) (.symbol x)) (parts _) := hx _ _ (ends_cons rfl _)
    _ = run (.unequal frames x) (parts _) := run_sign rfl rfl _
    _ = run (.operand (.unequal x :: frames)) (parts _) := run_sign rfl rfl _
    _ = run (.complete (.unequal x :: frames) (.symbol y)) (parts _) := hy _ _ (ends_cons rfl rest)
    _ = run (settle frames (.compare .unequal x y)) (parts rest) := run_sign rfl rfl rest

/-- A symbol alone in parentheses is the last link of a chain. -/
theorem listLast (hx : Reads a (.symbol x)) : Reads ("(" ++ a ++ ")") (.listLast x) := by
  intro frames rest hrest
  have htext : ("(" ++ a ++ ")").toList ++ rest = '(' :: (a.toList ++ ')' :: rest) := by
    simp
  calc run (.operand frames) (parts _)
      = run (.operand (.first :: frames)) (parts _) := by rw [htext, run_sign rfl rfl]
    _ = run (.complete (.first :: frames) (.symbol x)) (parts _) := hx _ _ (ends_cons rfl rest)
    _ = run (settle frames (.listLast x)) (parts rest) := run_sign rfl rfl rest

/-- A range is read back, if its bounds are. -/
theorem range (hx : Reads a (.symbol x)) (hy : Reads b (.symbol y)) :
    Reads ("[" ++ a ++ "," ++ b ++ "]") (.range x y) := by
  intro frames rest hrest
  have htext : ("[" ++ a ++ "," ++ b ++ "]").toList ++ rest =
      '[' :: (a.toList ++ ',' :: (b.toList ++ ']' :: rest)) := by
    simp
  calc run (.operand frames) (parts _)
      = run (.operand (.low :: frames)) (parts _) := by rw [htext, run_sign rfl rfl]
    _ = run (.complete (.low :: frames) (.symbol x)) (parts _) := hx _ _ (ends_cons rfl _)
    _ = run (.operand (.high x :: frames)) (parts _) := run_sign rfl rfl _
    _ = run (.complete (.high x :: frames) (.symbol y)) (parts _) := hy _ _ (ends_cons rfl rest)
    _ = run (settle frames (.range x y)) (parts rest) := run_sign rfl rfl rest

end Reads

/-! The connectives with the blanks around them. -/

/-- The parts of a shown conjunction: two texts, with a sign between blanks, in parentheses. -/
theorem shown_and (l r : Expr) :
    shown m (verbatim (l.and r)) =
      "(" ++ shown m (verbatim l) ++ " " ++ "&amp;&amp;" ++ " " ++ shown m (verbatim r) ++ ")" := by
  simp [← String.toList_inj, shown, Token.shown]

/-- The parts of a shown disjunction: two texts, with a sign between blanks, in parentheses. -/
theorem shown_or (l r : Expr) :
    shown m (verbatim (l.or r)) =
      "(" ++ shown m (verbatim l) ++ " " ++ "||" ++ " " ++ shown m (verbatim r) ++ ")" := by
  simp [← String.toList_inj, shown, Token.shown]

/-- The parts of a shown chain: its first member and the rest of it, in parentheses. -/
theorem shown_listCons (a : SymbolRef) (tail : Expr) :
    shown m (verbatim (.listCons a tail)) =
      "(" ++ shownSymbol m a ++ " " ++ "^" ++ " " ++ shown m (verbatim tail) ++ ")" := by
  simp [← String.toList_inj, shown, Token.shown]

/-- What is shown of an expression is read as the expression. -/
theorem reads_shown {e : Expr} (he : e.isShowable)
    (h : ∀ id, .entry id ∈ e.refs → m.ShowsById id) : Reads (shown m (verbatim e)) e := by
  have hsymbol : ∀ sym ∈ e.refs, Reads (shownSymbol m sym) (.symbol sym) := by
    intro sym hsym
    apply reads_symbol
    rintro id rfl
    exact h id hsym
  -- the induction goes over references of parts, so it is on what is known of references
  clear h
  induction e with
  | symbol s => simpa [shown, Token.shown] using hsymbol s List.mem_cons_self
  | not e ih => simpa [shown_cons, Token.shown] using (ih he hsymbol).not
  | compare op l r =>
    rw [Expr.refs_compare, List.forall_mem_cons, List.forall_mem_singleton] at hsymbol
    cases op with
    | equal =>
      simpa [shown, Token.shown, verbatimComparison, String.append_assoc]
        using hsymbol.1.equal hsymbol.2
    | unequal =>
      simpa [shown, Token.shown, verbatimComparison, String.append_assoc]
        using hsymbol.1.unequal hsymbol.2
    | less | lessEqual | greater | greaterEqual => cases he
  | and l r ihl ihr =>
    rw [Expr.isShowable, Bool.and_eq_true] at he
    rw [Expr.refs_and, List.forall_mem_append] at hsymbol
    rw [shown_and]
    exact (ihl he.1 hsymbol.1).join (ihr he.2 hsymbol.2) (.and l) (by simp) (by decide)
      (fun _ => rfl) fun _ => rfl
  | or l r ihl ihr =>
    rw [Expr.isShowable, Bool.and_eq_true] at he
    rw [Expr.refs_or, List.forall_mem_append] at hsymbol
    rw [shown_or]
    exact (ihl he.1 hsymbol.1).join (ihr he.2 hsymbol.2) (.or l) (by simp) (by decide)
      (fun _ => rfl) fun _ => rfl
  | listLast a =>
    simpa [shown, Token.shown, String.append_assoc] using (hsymbol a List.mem_cons_self).listLast
  | listCons a tail ih =>
    rw [Expr.refs_listCons, List.forall_mem_cons] at hsymbol
    rw [shown_listCons]
    exact hsymbol.1.join (ih he hsymbol.2) (.link a) (by simp) (by decide)
      (fun _ => rfl) fun _ => rfl
  | range low high =>
    rw [Expr.refs_range, List.forall_mem_cons, List.forall_mem_singleton] at hsymbol
    simpa [shown, Token.shown, String.append_assoc] using hsymbol.1.range hsymbol.2
  | unknown => cases he

/-- The whole text of an expression. -/
theorem expr?_shown {e : Expr} (he : e.isShowable)
    (h : ∀ id, .entry id ∈ e.refs → m.ShowsById id) : expr? (shown m (verbatim e)) = some e := by
  have hread := reads_shown he h [] [] nofun
  rw [List.append_nil] at hread
  rw [expr?, hread]
  cases e <;> rfl

end Reader

/-! ## Reading back -/

/-- An expression that the dump shows in full, and every symbol of it by its id, is shown without
ado. The text is read back as the expression, so that nothing else that is shown in full has it,
whatever model it belongs to. -/
theorem exprText_reads_back {e : Expr} (he : e.isShowable)
    (h : ∀ id, .entry id ∈ e.refs → m.ShowsById id) (context : String) :
    ∃ text, exprText m context e = pure text ∧ Reader.expr? text = some e ∧
      ∀ (m' : Model) (context' : String) (e' : Expr), e'.isShowable →
        (∀ id, .entry id ∈ e'.refs → m'.ShowsById id) →
        (exprText m' context' e').ending = .ok text → e' = e := by
  have hresolves : ∀ sym ∈ e.refs, m.Resolves sym := by
    rintro (t | id) hsym
    · trivial
    · obtain ⟨s, hs, -⟩ := h id hsym
      exact ⟨s, hs⟩
  refine ⟨shown m (verbatim e), tokensText_of_isLiteral context
    (isLiteral_of_isShowable he hresolves), Reader.expr?_shown he h, ?_⟩
  intro m' context' e' he' h' htext
  have hread : Reader.expr? (shown m' (verbatim e')) = some e' := Reader.expr?_shown he' h'
  rw [← eq_shown_of_tokensText htext, Reader.expr?_shown he h] at hread
  exact (Option.some.inj hread).symm

/-- A model with an option, a number and a choice. -/
def optionNumberChoice : Model where
  symbols := #[{ name := some "A", kind := .bool }, { name := some "N", kind := .int },
    { kind := .bool, flags := .choice }]

/-- An expression with a range, a chain that ends in a negation, and an inequality. -/
def chainOfTests : Expr :=
  .or (.not (.listCons (.entry ⟨0⟩) (.not (.compare .unequal (.entry ⟨1⟩) (.truth .no)))))
    (.and (.range (.entry ⟨1⟩) (.entry ⟨1⟩)) (.listLast (.entry ⟨2⟩)))

/-- The text of `chainOfTests` is read back, and it is the text of no other expression that can be
shown, in any model. -/
theorem chainOfTests_reads_back :
    chainOfTests.isShowable ∧
      (∀ id, .entry id ∈ chainOfTests.refs → optionNumberChoice.ShowsById id) ∧
      ∃ text, exprText optionNumberChoice "" chainOfTests = pure text ∧
        Reader.expr? text = some chainOfTests ∧
        ∀ (m' : Model) (context' : String) (e' : Expr), e'.isShowable →
          (∀ id, .entry id ∈ e'.refs → m'.ShowsById id) →
          (exprText m' context' e').ending = .ok text → e' = chainOfTests := by
  have he : chainOfTests.isShowable := by decide
  have hoption : optionNumberChoice.ShowsById ⟨0⟩ := ⟨_, rfl, by decide, by decide, by decide⟩
  have hnumber : optionNumberChoice.ShowsById ⟨1⟩ := ⟨_, rfl, by decide, by decide, by decide⟩
  have hchoice : optionNumberChoice.ShowsById ⟨2⟩ := ⟨_, rfl, by decide, by decide, by decide⟩
  have h : ∀ id, .entry id ∈ chainOfTests.refs → optionNumberChoice.ShowsById id := by
    have hrefs : chainOfTests.refs = [.entry ⟨0⟩, .entry ⟨1⟩, .truth .no, .entry ⟨1⟩, .entry ⟨1⟩,
        .entry ⟨2⟩] := rfl
    simp only [hrefs, List.mem_cons, List.not_mem_nil, SymbolRef.entry.injEq, reduceCtorEq,
      false_or, or_false]
    rintro _ (rfl | rfl | rfl | rfl | rfl)
    exacts [hoption, hnumber, hnumber, hnumber, hchoice]
  exact ⟨he, h, exprText_reads_back he h ""⟩

end Dump

end Kconfig
