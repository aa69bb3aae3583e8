import Kconfig.Proofs.Condition.Constants
import Kconfig.Proofs.Model.Soundness

/-!
# Texts that can stand in a record

A record is told apart by what stands outside quotes: the end of its line, its parentheses and a
bar. Nothing in it is escaped, so this rests on what the printer writes. Names that are written as
they are must be words, and values must keep to their line and to their quotes (`Model.NamesFit`).
Then the text of every expression, of whatever kind, keeps to its line, closes the parentheses that
it opens and has no bar outside quotes (`Printer.plain_layout`).

These properties pass to what is put together (`Plain.append`, `Plain.parens`), so they are shown of
the tokens and of nothing else (`Dialect.layout_induction`).
-/

namespace Kconfig

open Text (Item Spells)

/-! ## Names -/

/-- What a reader takes as the end of a line: a new line and whatever else, as long as it is no
character that can be seen and no blank. -/
structure LineBreaks where
  isBreak : Char → Bool
  newline : isBreak '\n' = true
  ascii : ∀ c : Char, 32 ≤ c.toNat → c.toNat < 127 → isBreak c = false

namespace LineBreaks

variable {breaks : LineBreaks}

/-- A text of visible characters and blanks has no line break, whatever else counts as one. -/
theorem isBreak_eq_false {text : String}
    (h : text.toList.all fun c => 32 ≤ c.toNat ∧ c.toNat < 127) :
    ∀ c ∈ text.toList, breaks.isBreak c = false := by
  intro c hc
  obtain ⟨hlow, hhigh⟩ := of_decide_eq_true (List.all_eq_true.mp h c hc)
  exact breaks.ascii c hlow hhigh

/-- A reader that knows only new lines. -/
def newlines : LineBreaks where
  isBreak c := c = '\n'
  newline := rfl
  ascii := by
    intro c hlow _
    rw [decide_eq_false_iff_not]
    rintro rfl
    exact absurd hlow (by decide)

/-- Whether a character ends no line and has no meaning in a record, unless it is a blank. -/
def IsPlainChar (breaks : LineBreaks) (c : Char) : Prop :=
  breaks.isBreak c = false ∧ c ∉ "\"()|".toList

/-- Whether a character may stand in words. -/
def IsWordChar (breaks : LineBreaks) (c : Char) : Prop :=
  breaks.IsPlainChar c ∧ c ≠ ' '

/-- Whether a character is one of those that the printer writes by itself: characters that can be
seen, and blanks. -/
def isSignChar (c : Char) : Bool :=
  32 ≤ c.toNat ∧ c.toNat < 127 ∧ c ∉ "\"()|".toList

/-- A character that the printer writes by itself is plain. -/
theorem isPlainChar {c : Char} (h : isSignChar c) : breaks.IsPlainChar c := by
  obtain ⟨hlow, hhigh, hfree⟩ := of_decide_eq_true h
  exact ⟨breaks.ascii c hlow hhigh, hfree⟩

/-- A text of signs without a blank is a word. -/
theorem isWordChar {text : String} (h : text.toList.all fun c => isSignChar c && c != ' ') :
    ∀ c ∈ text.toList, breaks.IsWordChar c := by
  intro c hc
  obtain ⟨hsign, hblank⟩ := Bool.and_eq_true_iff.mp (List.all_eq_true.mp h c hc)
  exact ⟨isPlainChar hsign, bne_iff_ne.mp hblank⟩

/-- Whether a character may stand in a value: it ends neither a line nor the value. -/
def IsValueChar (breaks : LineBreaks) (c : Char) : Prop :=
  breaks.isBreak c = false ∧ c ≠ '"'

instance (breaks : LineBreaks) : DecidablePred breaks.IsWordChar := fun c =>
  inferInstanceAs (Decidable ((breaks.isBreak c = false ∧ c ∉ "\"()|".toList) ∧ c ≠ ' '))

instance (breaks : LineBreaks) : DecidablePred breaks.IsValueChar := fun c =>
  inferInstanceAs (Decidable (breaks.isBreak c = false ∧ c ≠ '"'))

end LineBreaks

/-- Whether the name in a class is fit for a record: that of an option a word, and that of a value
what stays between its quotes. -/
def SymbolClass.Fits (breaks : LineBreaks) : SymbolClass → Prop
  | truth _ => True
  | value name => ∀ c ∈ name.toList, breaks.IsValueChar c
  | option name => ∀ c ∈ name.toList, breaks.IsWordChar c

instance (breaks : LineBreaks) : DecidablePred (SymbolClass.Fits breaks)
  | .truth _ => isTrue trivial
  | .value name => List.decidableBAll breaks.IsValueChar name.toList
  | .option name => List.decidableBAll breaks.IsWordChar name.toList

/-- What the names of a model must be for its records to be told apart. -/
structure Model.NamesFit (m : Model) (namePrefix : String) (breaks : LineBreaks) : Prop where
  namePrefix : ∀ c ∈ namePrefix.toList, breaks.IsWordChar c
  names : ∀ s ∈ m.symbols, s.class.Fits breaks

/-! ## Texts that keep to their place -/

/-- Whether a text, with its items, keeps to its line and closes the parentheses that it opens. -/
structure InLine (breaks : LineBreaks) (text : String) (items : List Item) : Prop where
  spells : Spells text items
  oneLine : ∀ c ∈ text.toList, breaks.isBreak c = false
  balanced : Item.Balanced items

/-- Whether it can stand on a side of the bar, since it has no bar outside quotes. -/
structure Plain (breaks : LineBreaks) (text : String) (items : List Item) : Prop extends
    InLine breaks text items where
  noBar : Item.char '|' ∉ items

namespace InLine

variable {breaks : LineBreaks} {a b : String} {is js : List Item}

/-- Texts that keep to their line may stand side by side. -/
theorem append (ha : InLine breaks a is) (hb : InLine breaks b js) :
    InLine breaks (a ++ b) (is ++ js) where
  spells := ha.spells.append hb.spells
  oneLine := by
    rw [String.toList_append, List.forall_mem_append]
    exact ⟨ha.oneLine, hb.oneLine⟩
  balanced := ha.balanced.append hb.balanced

/-- A text that keeps to its line may be put between parentheses. -/
theorem parens (h : InLine breaks a is) :
    InLine breaks ("(" ++ a ++ ")") ([.char '('] ++ is ++ [.char ')']) where
  spells := ((Spells.chars (a := "(") (by decide)).append h.spells).append
    (Spells.chars (a := ")") (by decide))
  oneLine := by
    simp only [String.toList_append, List.forall_mem_append]
    exact ⟨⟨breaks.isBreak_eq_false (by decide), h.oneLine⟩, breaks.isBreak_eq_false (by decide)⟩
  balanced := h.balanced.parens

/-- A bar keeps to its line. -/
theorem bar : InLine breaks "|" [.char '|'] where
  spells := Spells.chars (a := "|") (by decide)
  oneLine := breaks.isBreak_eq_false (by decide)
  balanced := Item.Balanced.of_forall (by decide)

end InLine

namespace Plain

variable {breaks : LineBreaks} {a b : String} {is js : List Item}

/-- Texts without a bar may stand side by side. -/
theorem append (ha : Plain breaks a is) (hb : Plain breaks b js) :
    Plain breaks (a ++ b) (is ++ js) where
  toInLine := ha.toInLine.append hb.toInLine
  noBar := by
    rw [List.mem_append, not_or]
    exact ⟨ha.noBar, hb.noBar⟩

/-- A text without a bar may be put between parentheses. -/
theorem parens (h : Plain breaks a is) :
    Plain breaks ("(" ++ a ++ ")") ([.char '('] ++ is ++ [.char ')']) where
  toInLine := h.toInLine.parens
  noBar := by
    have hnoBar := h.noBar
    simp [hnoBar]

/-- The empty text keeps to its place. -/
theorem nil : Plain breaks "" [] where
  spells := Spells.empty
  oneLine := nofun
  balanced := Item.Balanced.of_forall nofun
  noBar := nofun

/-- A text of plain characters keeps to its place. -/
theorem chars (h : ∀ c ∈ a.toList, breaks.IsPlainChar c) : Plain breaks a (Item.chars a) := by
  have hmem : ∀ c ∈ "\"()|".toList, c ∉ a.toList := by
    intro c hc hmem
    exact (h c hmem).2 hc
  refine ⟨⟨Spells.chars (hmem '"' (by decide)), fun c hc => (h c hc).1, ?_⟩, ?_⟩
  · apply Item.Balanced.of_forall
    intro item hitem
    obtain ⟨c, hc, rfl⟩ := Item.mem_chars_iff.mp hitem
    constructor
    · rintro ⟨⟩
      exact hmem '(' (by decide) hc
    · rintro ⟨⟩
      exact hmem ')' (by decide) hc
  · rintro hbar
    obtain ⟨c, hc, hcbar⟩ := Item.mem_chars_iff.mp hbar
    obtain rfl := Item.char.inj hcbar
    exact hmem '|' (by decide) hc

/-- Words are read character by character and have no blanks. -/
theorem word (h : ∀ c ∈ a.toList, breaks.IsWordChar c) :
    Plain breaks a (Item.chars a) ∧ Item.char ' ' ∉ Item.chars a := by
  refine ⟨chars fun c hc => (h c hc).1, ?_⟩
  intro hblank
  obtain ⟨c, hc, hcblank⟩ := Item.mem_chars_iff.mp hblank
  exact (h c hc).2 (Item.char.inj hcblank)

/-- What the printer writes by itself, but for parentheses. -/
theorem sign (h : a.toList.all LineBreaks.isSignChar) : Plain breaks a (Item.chars a) :=
  chars fun c hc => LineBreaks.isPlainChar (List.all_eq_true.mp h c hc)

/-- The items of a plain text are read back as the text. -/
theorem unread (h : Plain breaks a is) : Text.unread is = a :=
  Text.unread_of_items? h.spells.items?

/-- A value that keeps to its line is plain between quotes, whatever else is in it. -/
theorem quoted (h : ∀ c ∈ a.toList, breaks.IsValueChar c) :
    Plain breaks ("\"" ++ a ++ "\"") [.quoted a] where
  spells := by
    apply Spells.quoted
    intro hquote
    exact (h '"' hquote).2 rfl
  oneLine := by
    simp only [String.toList_append, List.forall_mem_append]
    exact ⟨⟨breaks.isBreak_eq_false (by decide), fun c hc => (h c hc).1⟩,
      breaks.isBreak_eq_false (by decide)⟩
  balanced := Item.Balanced.of_forall (by simp)
  noBar := by simp

end Plain

/-! ## What the printer writes -/

/-- What holds of no tokens, of every token but a parenthesis and of a pair of parentheses around
what it holds of, and passes to what is put together, holds of the layout of every expression. -/
theorem Dialect.layout_induction {P : List Token → Prop} (d : Dialect) (hnil : P [])
    (happend : ∀ as bs, P as → P bs → P (as ++ bs))
    (hparens : ∀ ts, P ts → P ([.openParen] ++ ts ++ [.closeParen]))
    (htoken : ∀ t, t ≠ .openParen → t ≠ .closeParen → P [t]) (enclosing : Option ExprKind)
    (e : Expr) : P (d.layout enclosing e) := by
  have htokens : ∀ ts : List Token, (∀ t ∈ ts, t ≠ .openParen ∧ t ≠ .closeParen) → P ts := by
    intro ts hts
    induction ts with
    | nil => exact hnil
    | cons t ts ih =>
      rw [List.forall_mem_cons] at hts
      exact happend [t] ts (htoken t hts.1.1 hts.1.2) (ih hts.2)
  have hunder : ∀ {e : Expr}, P (d.layout none e) → ∀ enclosing, P (d.layout enclosing e) := by
    intro e h enclosing
    rw [layout_eq_ite]
    split
    · exact hparens _ h
    · exact h
  apply hunder
  induction e with
  | symbol | listLast | range | unknown => exact htokens _ (by simp)
  | not e ih =>
    have hoperand : P (if d.splitsUnderNot e then [.openParen] ++ d.layout none e ++ [.closeParen]
        else d.layout (some .not) e) := by
      split
      · exact hparens _ ih
      · exact hunder ih _
    rw [layout_not]
    exact happend [.not] _ (htoken _ nofun nofun) hoperand
  | compare op l r =>
    rw [layout_compare]
    apply htokens
    unfold layoutComparison layoutEquality
    split
    · cases d <;> simp
    · split
      · simp
      · split <;> simp
  | and l r ihl ihr =>
    rw [layout_and]
    exact happend _ _ (happend _ _ (hunder ihl _) (htoken _ nofun nofun)) (hunder ihr _)
  | or l r ihl ihr =>
    rw [layout_or]
    exact happend _ _ (happend _ _ (hunder ihl _) (htoken _ nofun nofun)) (hunder ihr _)
  | listCons a tail ih =>
    rw [layout_listCons]
    exact happend _ _ (htokens _ (by simp)) (hunder ih _)

/-- What a reference stands for is fit for a record. -/
theorem Model.NamesFit.classOf {m : Model} {namePrefix : String} {breaks : LineBreaks}
    (h : m.NamesFit namePrefix breaks) (sym : SymbolRef) : (m.classOf sym).Fits breaks := by
  cases sym with
  | truth t => trivial
  | entry id =>
    rw [Model.classOf]
    rcases hs : m.symbol? id with _ | s
    · trivial
    · exact h.names s (Model.mem_symbols_of_symbol? hs)

namespace Printer

variable {p : Printer} {breaks : LineBreaks}

/-- The identifiers of options are words. -/
theorem isWordChar_identifier {namePrefix name : String}
    (hnamePrefix : ∀ c ∈ namePrefix.toList, breaks.IsWordChar c)
    (hname : ∀ c ∈ name.toList, breaks.IsWordChar c) :
    ∀ c ∈ (identifier namePrefix name).toList, breaks.IsWordChar c := by
  have hunderscore : breaks.IsWordChar '_' :=
    ⟨⟨breaks.ascii '_' (by decide) (by decide), by decide⟩, by decide⟩
  rw [identifier, String.toList_append, String.toList_ofList, List.forall_mem_append]
  refine ⟨hnamePrefix, ?_⟩
  intro c hc
  obtain ⟨c', hc', rfl⟩ := List.mem_map.mp hc
  split
  · exact hunderscore
  · exact hname c' hc'

/-- What a symbol is called is plain, in either role, if the names of the model fit. -/
theorem plain_operand (hp : p.dialect = .logic) (hfit : p.model.NamesFit p.namePrefix breaks)
    (role : Role) (sym : SymbolRef) :
    Plain breaks (p.tokenText (.operand role sym)) (p.tokenItems (.operand role sym)) := by
  have hclassFits := hfit.classOf sym
  simp only [tokenText, tokenItems, Model.value?]
  cases hclass : p.model.classOf sym with
  | truth b =>
    cases b with
    | true => exact Plain.sign (a := "1") (by decide)
    | false => exact Plain.sign (a := "0") (by decide)
  | value name =>
    rw [hclass] at hclassFits
    rw [className_value hp]
    exact Plain.quoted hclassFits
  | option name =>
    rw [hclass] at hclassFits
    rw [className_option hp]
    apply Plain.chars
    intro c hc
    exact (isWordChar_identifier hfit.namePrefix hclassFits c hc).1

/-- Whether the text of tokens can stand in a record. -/
def PlainTokens (p : Printer) (breaks : LineBreaks) (ts : List Token) : Prop :=
  Plain breaks (String.join (ts.map p.tokenText)) (ts.flatMap p.tokenItems)

/-- The text of every expression, of whatever kind, can stand in a record. -/
theorem plain_layout (hp : p.dialect = .logic) (hfit : p.model.NamesFit p.namePrefix breaks)
    (enclosing : Option ExprKind) (e : Expr) :
    p.PlainTokens breaks (p.dialect.layout enclosing e) := by
  have hsigns : ∀ text ∈ logicSigns, text.toList.all LineBreaks.isSignChar := by decide
  have htoken : ∀ t, t ≠ .openParen → t ≠ .closeParen →
      Plain breaks (p.tokenText t) (p.tokenItems t) := by
    intro t hopen hclose
    cases t with
    | operand role sym => exact plain_operand hp hfit role sym
    | openParen => exact absurd rfl hopen
    | closeParen => exact absurd rfl hclose
    | _ => exact Plain.sign (hsigns _ (tokenText_mem_logicSigns hp rfl nofun nofun))
  have happend : ∀ as bs, p.PlainTokens breaks as → p.PlainTokens breaks bs →
      p.PlainTokens breaks (as ++ bs) := by
    intro as bs has hbs
    have hboth := Plain.append has hbs
    rwa [← String.join_append, ← List.map_append, ← List.flatMap_append] at hboth
  apply p.dialect.layout_induction (P := p.PlainTokens breaks) Plain.nil happend
  · intro ts hts
    have hopen : p.tokenItems .openParen = [.char '('] := by
      simp [tokenItems, tokenText, Item.chars]
    have hclose : p.tokenItems .closeParen = [.char ')'] := by
      simp [tokenItems, tokenText, Item.chars]
    have hparens := Plain.parens hts
    rw [← hopen, ← hclose] at hparens
    simpa [PlainTokens, tokenText, String.append_assoc] using hparens
  · intro t hopen hclose
    have hone := htoken t hopen hclose
    simpa [PlainTokens] using hone

end Printer

end Kconfig
