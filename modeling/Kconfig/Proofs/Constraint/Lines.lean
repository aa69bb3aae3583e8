import Kconfig.Proofs.Constraint.Records

/-!
# The lines that are written

Where everything in a record leads to something, its line is known without a run
(`Record.lineText`), since the text of a condition is the texts of its tokens. So what is written of
a sound model is a list of lines, each of which belongs to a symbol of the table
(`Constraint.attributedLines`, `Constraint.writes_eq_attributedLines`).

An encoding that comes to its end has not stopped at any symbol, so each of its two passes is what
the symbols contribute, one after the other (`Constraint.records_of_ok`).
-/

namespace Kconfig

/-! ## Texts -/

namespace Printer

/-- The text of an expression. -/
def exprText (p : Printer) (e : Expr) : String :=
  String.join ((p.dialect.layout none e).map p.tokenText)

/-- The text of a condition. One that is absent always holds. -/
def conditionText (p : Printer) (e : Option Expr) : String :=
  (e.map p.exprText).getD "1"

/-- The text of a reference by itself. -/
def symbolText (p : Printer) (sym : SymbolRef) : String :=
  p.className .plain (p.model.classOf sym)

variable {p : Printer}

/-- An expression whose references the table has comes to its text. -/
theorem ending_render {e : Expr} (h : p.model.ResolvesAll e) :
    (p.render none e).ending = .ok (p.exprText e) := by
  rw [p.render_of_resolves none h]
  rfl

/-- A condition whose references the table has comes to its text. -/
theorem ending_condition {e : Option Expr} (h : ∀ e' ∈ e, p.model.ResolvesAll e') :
    (p.condition e).ending = .ok (p.conditionText e) := by
  rcases e with _ | e
  · rfl
  · exact ending_render (h e rfl)

/-- References that the table has come to their names. -/
theorem ending_symbols {syms : List SymbolRef} (h : ∀ sym ∈ syms, p.model.Resolves sym) :
    (syms.mapM (p.symbol .plain)).ending = .ok (syms.map p.symbolText) := by
  have hsym : ∀ sym ∈ syms, p.symbol .plain sym = ⟨[], .ok (p.symbolText sym)⟩ := by
    intro sym hmem
    exact p.symbol_of_resolves .plain (h sym hmem)
  rw [Run.mapM_of_ok hsym]

end Printer

namespace Record

/-- The line of a record. -/
def lineText (p : Printer) : Record → String
  | config name type => "config " ++ identifier p.namePrefix name ++ " " ++ type ++ "\n"
  | prompt name visible =>
    "prompt " ++ identifier p.namePrefix name ++ " (" ++ p.conditionText visible ++ ")" ++ "\n"
  | default name boolean value visible =>
    defaultWord boolean ++ " " ++ identifier p.namePrefix name ++ " " ++ p.exprText value ++ "|(" ++
      p.conditionText visible ++ ")" ++ "\n"
  | choice _ tristate optional members visible _ =>
    choiceWord tristate optional ++ String.join ((members.map p.symbolText).map (" " ++ ·)) ++
      "|(" ++ p.conditionText visible ++ ")" ++ "\n"
  | dep name condition =>
    "dep " ++ identifier p.namePrefix name ++ " (" ++ p.conditionText condition ++ ")" ++ "\n"
  | select selected name visible =>
    "select " ++ p.conditionText selected ++ " " ++ identifier p.namePrefix name ++ " (" ++
      p.conditionText visible ++ ")" ++ "\n"
  | revDep name condition =>
    "rev_dep " ++ identifier p.namePrefix name ++ " (" ++ p.conditionText condition ++ ")" ++ "\n"

/-- Writing a record comes to its line. -/
theorem ending_line {p : Printer} {r : Record} (h : r.ResolvesIn p.model) :
    (r.line p).ending = .ok (r.lineText p) := by
  cases r with
  | config name type => rfl
  | prompt name visible | dep name visible | revDep name visible =>
    have hguard := Printer.ending_condition h
    simp only [line, text, Run.bind_of_ok hguard]
    rfl
  | default name boolean value visible =>
    have hvalue := Printer.ending_render h.1
    have hguard := Printer.ending_condition h.2
    simp only [line, text, Run.bind_of_ok hvalue, Run.bind_of_ok hguard]
    rfl
  | choice id tristate optional members visible morePrompts =>
    have hmembers := Printer.ending_symbols h.1
    have hguard := Printer.ending_condition h.2
    simp only [line, text, Run.bind_of_ok hmembers, Run.bind_of_ok hguard]
    -- the message about more prompts changes nothing about the line
    cases morePrompts <;> rfl
  | select selected name visible =>
    have hselected := Printer.ending_condition h.1
    have hguard := Printer.ending_condition h.2
    simp only [line, text, Run.bind_of_ok hselected, Run.bind_of_ok hguard]
    rfl

end Record

namespace Constraint

variable {m : Model} {settings : Settings}

/-- The printer of constraints. -/
def linePrinter (m : Model) (settings : Settings) : Printer :=
  ⟨m, settings.namePrefix, .logic⟩

/-- The lines that an encoding writes, each with the symbol that it is written for. -/
def attributedLines (m : Model) (settings : Settings) : List (SymbolId × String) :=
  (records m settings).map fun x => (x.1, x.2.lineText (linePrinter m settings))

/-- Results that are known one by one are known together. -/
theorem eq_map_of_forall₂ {α β : Type} {R : α → β → Prop} {f : α → β} {as : List α} {bs : List β}
    (h : List.Forall₂ R as bs) (hf : ∀ a ∈ as, ∀ b, R a b → b = f a) : bs = as.map f := by
  induction h with
  | nil => rfl
  | cons hab _ ih =>
    rw [List.forall_mem_cons] at hf
    rw [List.map_cons, hf.1 _ hab, ih hf.2]

/-- Without the symbols, these are the lines that are written. -/
theorem writes_eq_attributedLines (h : m.IsSound) (settings : Settings) :
    (extract m settings).writes = (attributedLines m settings).map Prod.snd := by
  rw [attributedLines, List.map_map]
  apply eq_map_of_forall₂ (extract_writes h settings).1
  intro x hx line hline
  have hresolves := records_resolve h settings x hx
  have htext : (x.2.line (linePrinter m settings)).ending = .ok (x.2.lineText _) :=
    Record.ending_line hresolves
  exact Except.ok.inj (hline.symm.trans htext)

/-! ## Encodings that come to their end -/

/-- What the second pass writes, if it does not stop at a symbol. -/
def ruled (m : Model) (settings : Settings) : List (SymbolId × Record) :=
  m.entries.flatMap fun x => (Step.written (rules m settings x.1 x.2)).map (x.1, ·)

/-- An encoding that comes to its end does not stop at any symbol. -/
theorem ending_rules_of_ok (h : m.IsSound) (hending : (extract m settings).ending = .ok ()) :
    ∀ x ∈ m.entries, Step.ending (rules m settings x.1 x.2) = .ok () := by
  rw [(extract_writes h settings).2, Step.ending_append (ending_declarationPlan m), rulePlan,
    Step.ending_flatMap_eq_ok_iff] at hending
  intro x hx
  have hx' := hending x hx
  rwa [Step.ending_map] at hx'

/-- The records of an encoding that comes to its end. -/
theorem records_of_ok (h : m.IsSound) (hending : (extract m settings).ending = .ok ()) :
    records m settings = declared m ++ ruled m settings := by
  rw [records_eq, ruled, rulePlan, Step.written_flatMap]
  · simp only [Step.written_map]
  · intro x hx
    rw [Step.ending_map]
    exact ending_rules_of_ok h hending x hx

end Constraint

end Kconfig
