import Kconfig.Proofs.Condition.Spelling
import Kconfig.Proofs.Text.Quotes

/-!
# Values in the text of an expression

The logic dialect writes an option by its identifier and a value in double quotes. A reader who
scans for quotes takes the text of an expression as the items of its tokens
(`Printer.spells_layout`), as long as no name has a quote in it: the values are the quoted texts,
in the order in which the expression refers to them, and around them stands what was written there
(`Printer.constants_read_back`).

A value is written as it is spelled, so a quote in it ends it (`Printer.quoteInValue_misread`).
-/

namespace Kconfig

open Text (Item Spells)

/-- Whether the text by which a class is written has no quote in it but those around a value. -/
def SymbolClass.HasNoQuote (namePrefix : String) : SymbolClass → Prop
  | truth _ => True
  | value name => '"' ∉ name.toList
  | option name => '"' ∉ (identifier namePrefix name).toList

instance (namePrefix : String) : DecidablePred (SymbolClass.HasNoQuote namePrefix)
  | .truth _ => isTrue trivial
  | .value name => inferInstanceAs (Decidable ('"' ∉ name.toList))
  | .option name => inferInstanceAs (Decidable ('"' ∉ (identifier namePrefix name).toList))

/-! ## Values in the layout -/

/-- The reference of a token. -/
def Token.sym? : Token → Option SymbolRef
  | operand _ sym => some sym
  | _ => none

namespace Model

variable {m : Model}

/-- The value that a reference stands for, if it stands for one. -/
def value? (m : Model) (sym : SymbolRef) : Option String :=
  match m.classOf sym with
  | .value name => some name
  | .truth _ | .option _ => none

/-- The values that an expression refers to, from left to right, as often as it does. -/
def values (m : Model) (e : Expr) : List String :=
  e.refs.filterMap m.value?

/-- The values that tokens are about. -/
def tokenValues (m : Model) (ts : List Token) : List String :=
  ts.filterMap fun t => t.sym?.bind m.value?

/-- The values of tokens in a row are those of the first tokens, then those of the others. -/
theorem tokenValues_append (a b : List Token) :
    m.tokenValues (a ++ b) = m.tokenValues a ++ m.tokenValues b :=
  List.filterMap_append

/-- Truth values may be left out of a comparison, and are no values. -/
theorem tokenValues_layoutComparison (op : Comparison) (l r : SymbolRef) :
    m.tokenValues (Dialect.logic.layoutComparison op l r) = [l, r].filterMap m.value? := by
  have hsides : ∀ t : Token, t.sym? = none →
      m.tokenValues [.operand .plain l, t, .operand .plain r] = [l, r].filterMap m.value? := by
    intro t ht
    have hsign : m.tokenValues [t] = [] := by
      simp only [tokenValues, List.filterMap_cons, ht, Option.bind_none, List.filterMap_nil]
    calc m.tokenValues ([.operand .plain l] ++ ([t] ++ [.operand .plain r]))
        = [l].filterMap m.value? ++ [r].filterMap m.value? := by
          rw [tokenValues_append, tokenValues_append, hsign]
          rfl
      _ = [l, r].filterMap m.value? := List.filterMap_append.symm
  have htest : ∀ t : Tristate, [l, .truth t].filterMap m.value? = [l].filterMap m.value? := by
    intro t
    have htruth : m.value? (.truth t) = none := rfl
    simp only [List.filterMap_cons, htruth, List.filterMap_nil]
  unfold Dialect.layoutComparison
  split
  · exact hsides _ rfl
  · cases r with
    | entry id => exact hsides _ rfl
    | truth t =>
      rw [Dialect.layoutEquality, htest]
      split <;> rfl

/-- Parentheses are about no value. -/
theorem tokenValues_layout_of_none {d : Dialect} {e : Expr} {names : List String}
    (h : m.tokenValues (d.layout none e) = names) (enclosing : Option ExprKind) :
    m.tokenValues (d.layout enclosing e) = names := by
  rw [Dialect.layout_eq_ite]
  split
  · rw [tokenValues_append, tokenValues_append, h]
    exact List.append_nil _
  · exact h

/-- The values are written in the order in which the expression refers to them. -/
theorem tokenValues_layout (m : Model) (enclosing : Option ExprKind) (e : Expr) :
    m.tokenValues (Dialect.logic.layout enclosing e) = m.values e := by
  apply tokenValues_layout_of_none
  unfold values
  induction e with
  | symbol s => rfl
  | not e ih =>
    -- the logic dialect has no parentheses of its own under a negation
    rw [Dialect.layout_not]
    exact tokenValues_layout_of_none ih (some .not)
  | compare op l r =>
    rw [Dialect.layout_compare, tokenValues_layoutComparison, Expr.refs_compare]
  | and l r ihl ihr =>
    rw [Dialect.layout_and, tokenValues_append, tokenValues_append,
      tokenValues_layout_of_none ihl, tokenValues_layout_of_none ihr, Expr.refs_and,
      List.filterMap_append]
    exact congrArg (· ++ _) (List.append_nil _)
  | or l r ihl ihr =>
    rw [Dialect.layout_or, tokenValues_append, tokenValues_append,
      tokenValues_layout_of_none ihl, tokenValues_layout_of_none ihr, Expr.refs_or,
      List.filterMap_append]
    exact congrArg (· ++ _) (List.append_nil _)
  | listLast a => rfl
  | listCons a tail ih =>
    rw [Dialect.layout_listCons, tokenValues_append, tokenValues_layout_of_none ih,
      Expr.refs_listCons, ← List.singleton_append (l := tail.refs), List.filterMap_append]
    rfl
  | range low high => rfl
  | unknown => rfl

end Model

namespace Printer

variable {p : Printer}

/-! ## The text as items -/

/-- A value is put between quotes. -/
theorem className_value (hp : p.dialect = .logic) (role : Role) (name : String) :
    p.className role (.value name) = "\"" ++ name ++ "\"" := by
  rw [className, hp]

/-- An option is called by its prefix and its name, in either role. -/
theorem className_option (hp : p.dialect = .logic) (role : Role) (name : String) :
    p.className role (.option name) = identifier p.namePrefix name := by
  obtain ⟨m, namePrefix, d⟩ := p
  obtain rfl : d = .logic := hp
  rfl

/-- What a token is read as: a value as what is quoted, all else by its characters. -/
def tokenItems (p : Printer) : Token → List Item
  | .operand role sym =>
    match p.model.value? sym with
    | some name => [.quoted name]
    | none => Item.chars (p.className role (p.model.classOf sym))
  | t => Item.chars (p.tokenText t)

/-- Whether the name that a reference is written by has no quote in it. -/
def HasNoQuote (p : Printer) (sym : SymbolRef) : Prop :=
  (p.model.classOf sym).HasNoQuote p.namePrefix

instance (p : Printer) : DecidablePred p.HasNoQuote := fun sym =>
  inferInstanceAs (Decidable ((p.model.classOf sym).HasNoQuote p.namePrefix))

/-- What the logic dialect writes beside parentheses and what symbols are called. -/
def logicSigns : List String :=
  ["1", "0", " not ", " and ", " or ", "==", "!=", " < ", " <= ", " > ", " >= ", " ", "^ ", "[",
    "]", ""]

/-- The sign of every comparison is one of those that the dialect writes by itself. -/
theorem comparison_mem_logicSigns (op : Comparison) : op.text ∈ logicSigns := by
  cases op <;> decide

/-- A token that is about no symbol, and is no parenthesis, is written with a sign of the dialect.
-/
theorem tokenText_mem_logicSigns (hp : p.dialect = .logic) {t : Token} (hsym : t.sym? = none)
    (hopen : t ≠ .openParen) (hclose : t ≠ .closeParen) : p.tokenText t ∈ logicSigns := by
  obtain ⟨m, namePrefix, d⟩ := p
  obtain rfl : d = .logic := hp
  cases t with
  | operand role sym => cases hsym
  | openParen => exact absurd rfl hopen
  | closeParen => exact absurd rfl hclose
  | compare op => exact comparison_mem_logicSigns op
  | ordering kind =>
    cases kind with
    | comparison op => exact comparison_mem_logicSigns op
    | _ => exact (by decide : "" ∈ logicSigns)
  | unsaid | unknown => exact (by decide : "1" ∈ logicSigns)
  | not => exact (by decide : " not " ∈ logicSigns)
  | and => exact (by decide : " and " ∈ logicSigns)
  | or => exact (by decide : " or " ∈ logicSigns)
  | gap | rangeGap => exact (by decide : " " ∈ logicSigns)
  | caret => exact (by decide : "^ " ∈ logicSigns)
  | openRange => exact (by decide : "[" ∈ logicSigns)
  | closeRange => exact (by decide : "]" ∈ logicSigns)

/-- The text of a token spells its items, if no name in it has a quote. -/
theorem spells_tokenText (hp : p.dialect = .logic) {t : Token}
    (h : ∀ sym ∈ t.sym?, p.HasNoQuote sym) : Spells (p.tokenText t) (p.tokenItems t) := by
  have hsigns : ∀ text ∈ logicSigns, '"' ∉ text.toList := by decide
  cases t with
  | operand role sym =>
    have hsym : p.HasNoQuote sym := h sym rfl
    unfold HasNoQuote at hsym
    simp only [tokenText, tokenItems, Model.value?]
    cases hclass : p.model.classOf sym with
    | truth b =>
      cases b with
      | true => exact Spells.chars (hsigns "1" (by decide))
      | false => exact Spells.chars (hsigns "0" (by decide))
    | value name =>
      rw [hclass] at hsym
      rw [className_value hp]
      exact Spells.quoted hsym
    | option name =>
      rw [hclass] at hsym
      rw [className_option hp]
      exact Spells.chars hsym
  | openParen => exact Spells.chars (by decide : '"' ∉ "(".toList)
  | closeParen => exact Spells.chars (by decide : '"' ∉ ")".toList)
  | _ => exact Spells.chars (hsigns _ (tokenText_mem_logicSigns hp rfl nofun nofun))

/-- The text of tokens is read as the items of each. -/
theorem spells_tokens (hp : p.dialect = .logic) {ts : List Token}
    (h : ∀ t ∈ ts, ∀ sym ∈ t.sym?, p.HasNoQuote sym) :
    Spells (String.join (ts.map p.tokenText)) (ts.flatMap p.tokenItems) :=
  Spells.join fun t ht => spells_tokenText hp (h t ht)

/-- The text of an expression spells the items of its tokens, if no name in it has a quote. -/
theorem spells_layout (hp : p.dialect = .logic) {e : Expr} (h : ∀ sym ∈ e.refs, p.HasNoQuote sym)
    (enclosing : Option ExprKind) :
    Spells (String.join ((p.dialect.layout enclosing e).map p.tokenText))
      ((p.dialect.layout enclosing e).flatMap p.tokenItems) := by
  apply spells_tokens hp
  intro t ht sym hsym
  have hof := p.dialect.isOf_layout enclosing e t ht
  cases t with
  | operand role sym' =>
    obtain rfl : sym' = sym := Option.some.inj hsym
    exact h sym' hof
  | _ => cases hsym

/-! ## Reading back -/

/-- The quotations among the items of a token are the values that it is about. -/
theorem filterMap_quotation?_tokenItems (t : Token) :
    (p.tokenItems t).filterMap Item.quotation? = p.model.tokenValues [t] := by
  cases t with
  | operand role sym =>
    simp only [tokenItems, Model.tokenValues, Token.sym?, List.filterMap_cons, Option.bind_some]
    cases p.model.value? sym with
    | none => exact Item.filterMap_quotation?_chars _
    | some name => rfl
  | _ => exact Item.filterMap_quotation?_chars _

/-- What tokens quote are the values that they are about. -/
theorem filterMap_quotation?_flatMap (ts : List Token) :
    (ts.flatMap p.tokenItems).filterMap Item.quotation? = p.model.tokenValues ts := by
  induction ts with
  | nil => rfl
  | cons t ts ih =>
    rw [List.flatMap_cons, List.filterMap_append, ih, filterMap_quotation?_tokenItems,
      ← Model.tokenValues_append, List.singleton_append]

/-- Where names have no quotes in them, the text of an expression is read as what was written for
each of its tokens. What is quoted in it is the values that the expression refers to, in their
order, so no expression that refers to others has the same text. -/
theorem constants_read_back (hp : p.dialect = .logic) {e : Expr}
    (he : ∀ sym ∈ e.refs, p.model.Resolves sym) (h : ∀ sym ∈ e.refs, p.HasNoQuote sym) :
    ∃ text, (p.render none e).ending = .ok text ∧
      Text.items? text = some ((p.dialect.layout none e).flatMap p.tokenItems) ∧
      (Text.items? text).map (List.filterMap Item.quotation?) = some (p.model.values e) ∧
      ∀ (p' : Printer) (e' : Expr), p'.dialect = .logic →
        (∀ sym ∈ e'.refs, p'.model.Resolves sym) → (∀ sym ∈ e'.refs, p'.HasNoQuote sym) →
        (p'.render none e').ending = .ok text → p'.model.values e' = p.model.values e := by
  have hquoted : ∀ (p : Printer) (e : Expr), p.dialect = .logic →
      (∀ sym ∈ e.refs, p.HasNoQuote sym) →
      (Text.items? (String.join ((p.dialect.layout none e).map p.tokenText))).map
        (List.filterMap Item.quotation?) = some (p.model.values e) := by
    intro p e hp h
    rw [(spells_layout hp h none).items?, Option.map_some, filterMap_quotation?_flatMap, hp,
      Model.tokenValues_layout]
  refine ⟨String.join ((p.dialect.layout none e).map p.tokenText), ?_,
    (spells_layout hp h none).items?, hquoted p e hp h, ?_⟩
  · rw [p.render_of_resolves none he]
  · intro p' e' hp' he' h' htext
    rw [p'.render_of_resolves none he'] at htext
    have hsame := Except.ok.inj htext
    have hread := hquoted p' e' hp' h'
    rw [hsame, hquoted p e hp h] at hread
    exact (Option.some.inj hread).symm

/-- A printer for an option, a value that reads like a condition, and another value. -/
def ofWordyValue : Printer where
  model :=
    { symbols := #[{ name := some "A", kind := .string }, { name := some "x) or (y|" },
        { name := some "42" }] }
  namePrefix := "CONFIG_"
  dialect := .logic

/-- A value that reads like an operator is still read back as one constant. -/
theorem ofWordyValue_reads_back :
    let e : Expr := .and (.not (.compare .equal (.entry ⟨1⟩) (.entry ⟨0⟩)))
      (.or (.range (.entry ⟨2⟩) (.entry ⟨1⟩)) (.listCons (.entry ⟨0⟩) (.listLast (.entry ⟨1⟩))))
    (∀ sym ∈ e.refs, ofWordyValue.model.Resolves sym) ∧
      (∀ sym ∈ e.refs, ofWordyValue.HasNoQuote sym) ∧
      ofWordyValue.model.values e = ["x) or (y|", "42", "x) or (y|", "x) or (y|"] ∧
      ∃ text, (ofWordyValue.render none e).ending = .ok text ∧
        (Text.items? text).map (List.filterMap Item.quotation?) =
          some (ofWordyValue.model.values e) := by
  intro e
  have hresolves : ∀ sym ∈ e.refs, ofWordyValue.model.Resolves sym := by decide
  have hquote : ∀ sym ∈ e.refs, ofWordyValue.HasNoQuote sym := by decide
  obtain ⟨text, htext, -, hread, -⟩ := constants_read_back rfl hresolves hquote
  exact ⟨hresolves, hquote, rfl, text, htext, hread⟩

/-- A printer for a value with quotes in it and the two values that it reads like. -/
def ofQuoteInValue : Printer where
  model :=
    { symbols := #[{ name := some "x\" or \"y" }, { name := some "x" }, { name := some "y" }] }
  namePrefix := "CONFIG_"
  dialect := .logic

/-- The text of a value with quotes in it does not quote that value, and is the text of a
disjunction of two others. -/
theorem quoteInValue_misread :
    ofQuoteInValue.model.Resolves (.entry ⟨0⟩) ∧
      (¬ ∃ text, (ofQuoteInValue.render none (.symbol (.entry ⟨0⟩))).ending = .ok text ∧
        (Text.items? text).map (List.filterMap Item.quotation?) =
          some (ofQuoteInValue.model.values (.symbol (.entry ⟨0⟩)))) ∧
      (ofQuoteInValue.render none (.symbol (.entry ⟨0⟩))).ending =
        (ofQuoteInValue.render none
          (.or (.symbol (.entry ⟨1⟩)) (.symbol (.entry ⟨2⟩)))).ending := by
  refine ⟨by decide, ?_, rfl⟩
  rintro ⟨text, htext, hread⟩
  have hrender : (ofQuoteInValue.render none (.symbol (.entry ⟨0⟩))).ending =
      .ok "\"x\" or \"y\"" := rfl
  have hquoted : (Text.items? "\"x\" or \"y\"").map (List.filterMap Item.quotation?) =
      some ["x", "y"] := by decide
  rw [hrender] at htext
  obtain rfl := Except.ok.inj htext
  rw [hquoted] at hread
  exact absurd hread (by decide)

end Printer

end Kconfig
