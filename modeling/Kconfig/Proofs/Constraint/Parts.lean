import Kconfig.Proofs.Constraint.Lines

/-!
# The parts of a line

A line is put together of parts: the words and signs of its record, the option that the record is
about, and the tokens of conditions, values and members (`Record.parts`). The lines of an encoding
are the texts of their parts, one after the other, and so are the lines that list the dependencies
of one symbol (`Constraint.writes_eq_parts`, `Listing.writes_eq_parts`). In a record that resolves,
each of these texts is what the printer makes of the part (`Printer.part_of_resolves`), so what is
known of single tokens is known of what stands in lines.
-/

namespace Kconfig

/-- A part of a line. -/
inductive Part where
  /-- A word or a sign of the record. -/
  | sign (text : String)
  /-- The option that the record is about. -/
  | subject (name : String)
  /-- A token of a condition, of a value or of a list of members. -/
  | token (t : Token)

/-! ## How lines are divided -/

namespace Dialect

/-- The parts of an expression. -/
def exprParts (d : Dialect) (e : Expr) : List Part :=
  (d.layout none e).map .token

/-- The parts of a condition. One that is absent always holds. -/
def conditionParts (d : Dialect) (e : Option Expr) : List Part :=
  (e.map d.exprParts).getD [.sign "1"]

end Dialect

/-- The parts of a record's line. -/
def Record.parts (d : Dialect) : Record → List Part
  | config name type => [.sign "config ", .subject name, .sign (" " ++ type ++ "\n")]
  | prompt name visible =>
    [.sign "prompt ", .subject name, .sign " ("] ++ d.conditionParts visible ++ [.sign ")\n"]
  | default name boolean value visible =>
    [.sign (defaultWord boolean ++ " "), .subject name, .sign " "] ++ d.exprParts value ++
      [.sign "|("] ++ d.conditionParts visible ++ [.sign ")\n"]
  | choice _ tristate optional members visible _ =>
    [.sign (choiceWord tristate optional)] ++
      (members.flatMap fun sym => [.sign " ", .token (.operand .plain sym)]) ++
      [.sign "|("] ++ d.conditionParts visible ++ [.sign ")\n"]
  | dep name condition =>
    [.sign "dep ", .subject name, .sign " ("] ++ d.conditionParts condition ++ [.sign ")\n"]
  | select selected name visible =>
    [.sign "select "] ++ d.conditionParts selected ++ [.sign " ", .subject name, .sign " ("] ++
      d.conditionParts visible ++ [.sign ")\n"]
  | revDep name condition =>
    [.sign "rev_dep ", .subject name, .sign " ("] ++ d.conditionParts condition ++ [.sign ")\n"]

/-! ## How parts are written -/

namespace Printer

/-- A part as it is written. -/
def part (p : Printer) : Part → Run String
  | .sign text => return text
  | .subject name => return identifier p.namePrefix name
  | .token t => p.token t

/-- The text of a part that can be written. -/
def partText (p : Printer) : Part → String
  | .sign text => text
  | .subject name => identifier p.namePrefix name
  | .token t => p.tokenText t

/-- The text of parts, one after the other. -/
def partsText (p : Printer) (parts : List Part) : String :=
  String.join (parts.map p.partText)

variable {p : Printer}

/-- A part comes before the others. -/
@[simp] theorem partsText_cons (part : Part) (parts : List Part) :
    p.partsText (part :: parts) = p.partText part ++ p.partsText parts := by
  simp [partsText]

/-- Parts come one after the other. -/
@[simp] theorem partsText_append (a b : List Part) :
    p.partsText (a ++ b) = p.partsText a ++ p.partsText b := by
  simp [partsText]

/-- No parts, no text. -/
@[simp] theorem partsText_nil : p.partsText [] = "" := rfl

/-- The parts of an expression make its text. -/
@[simp] theorem partsText_exprParts (e : Expr) :
    p.partsText (p.dialect.exprParts e) = p.exprText e := by
  rw [partsText, Dialect.exprParts, List.map_map]
  rfl

/-- The parts of a condition make its text. -/
@[simp] theorem partsText_conditionParts (e : Option Expr) :
    p.partsText (p.dialect.conditionParts e) = p.conditionText e := by
  rcases e with _ | e
  · rfl
  · exact partsText_exprParts e

/-- The members of a choice, each after a blank. -/
theorem partsText_members (members : List SymbolRef) :
    p.partsText (members.flatMap fun sym => [.sign " ", .token (.operand .plain sym)]) =
      String.join ((members.map p.symbolText).map (" " ++ ·)) := by
  induction members with
  | nil => rfl
  | cons sym members ih =>
    rw [List.flatMap_cons, partsText_append, ih]
    simp [partText, tokenText, symbolText]

/-- A line is the texts of its parts, one after the other. -/
theorem partsText_parts (r : Record) : p.partsText (r.parts p.dialect) = r.lineText p := by
  cases r with
  | choice => simp [Record.parts, Record.lineText, partText, partsText_members, ← String.toList_inj]
  | _ => simp [Record.parts, Record.lineText, partText, ← String.toList_inj]

/-- The parts of an expression that resolves. -/
theorem part_of_mem_exprParts {e : Expr} (h : p.model.ResolvesAll e) :
    ∀ part ∈ p.dialect.exprParts e, (p.part part).ending = .ok (p.partText part) := by
  intro part hpart
  obtain ⟨t, ht, rfl⟩ := List.mem_map.mp hpart
  rw [Printer.part, p.token_of_isOf h (p.dialect.isOf_layout none e t ht)]
  rfl

/-- The parts of a condition that resolves. -/
theorem part_of_mem_conditionParts {e : Option Expr} (h : ∀ e' ∈ e, p.model.ResolvesAll e') :
    ∀ part ∈ p.dialect.conditionParts e, (p.part part).ending = .ok (p.partText part) := by
  rcases e with _ | e
  · exact List.forall_mem_singleton.mpr rfl
  · exact part_of_mem_exprParts (h e rfl)

/-- The members of a choice that resolve. -/
theorem part_of_mem_members {members : List SymbolRef}
    (h : ∀ sym ∈ members, p.model.Resolves sym) :
    ∀ part ∈ members.flatMap fun sym => [Part.sign " ", .token (.operand .plain sym)],
      (p.part part).ending = .ok (p.partText part) := by
  intro part hpart
  obtain ⟨sym, hsym, hpart⟩ := List.mem_flatMap.mp hpart
  rcases List.mem_cons.mp hpart with rfl | hpart
  · rfl
  · obtain rfl := List.mem_singleton.mp hpart
    rw [Printer.part, token, p.symbol_of_resolves .plain (h sym hsym)]
    rfl

/-- In a record that resolves, the printer writes every part as its text. -/
theorem part_of_resolves {r : Record} (h : r.ResolvesIn p.model) :
    ∀ part ∈ r.parts p.dialect, (p.part part).ending = .ok (p.partText part) := by
  cases r with
  | config name type =>
    simp only [Record.parts, List.forall_mem_cons]
    exact ⟨rfl, rfl, rfl, nofun⟩
  | prompt name visible | dep name visible | revDep name visible =>
    simp only [Record.parts, List.forall_mem_append, List.forall_mem_cons]
    exact ⟨⟨⟨rfl, rfl, rfl, nofun⟩, part_of_mem_conditionParts h⟩, rfl, nofun⟩
  | default name boolean value visible =>
    simp only [Record.parts, List.forall_mem_append, List.forall_mem_cons]
    exact ⟨⟨⟨⟨⟨rfl, rfl, rfl, nofun⟩, part_of_mem_exprParts h.1⟩, rfl, nofun⟩,
      part_of_mem_conditionParts h.2⟩, rfl, nofun⟩
  | choice id tristate optional members visible morePrompts =>
    simp only [Record.parts, List.forall_mem_append, List.forall_mem_singleton]
    exact ⟨⟨⟨⟨rfl, part_of_mem_members h.1⟩, rfl⟩, part_of_mem_conditionParts h.2⟩, rfl⟩
  | select selected name visible =>
    simp only [Record.parts, List.forall_mem_append, List.forall_mem_cons]
    exact ⟨⟨⟨⟨⟨rfl, nofun⟩, part_of_mem_conditionParts h.1⟩, rfl, rfl, rfl, nofun⟩,
      part_of_mem_conditionParts h.2⟩, rfl, nofun⟩

end Printer

/-! ## What is written -/

/-- The lines of an encoding are made of their parts. -/
theorem Constraint.writes_eq_parts {m : Model} (h : m.IsSound) (settings : Settings) :
    (extract m settings).writes =
      (records m settings).map fun x => (linePrinter m settings).partsText (x.2.parts .logic) := by
  rw [writes_eq_attributedLines h, attributedLines, List.map_map]
  apply List.map_congr_left
  intro x _
  exact (Printer.partsText_parts x.2).symm

/-- The lines that list the dependencies of a symbol are made of their parts. -/
theorem Listing.writes_eq_parts {m : Model} (h : m.IsSound) (settings : Settings) (name : String) :
    (writeDeps m settings name).writes =
      (Step.written (deps m settings name)).map fun r =>
        Printer.partsText ⟨m, settings.namePrefix, .boolean⟩ (r.parts .boolean) := by
  let p : Printer := ⟨m, settings.namePrefix, .boolean⟩
  have hresolve : ∀ r ∈ Step.written (deps m settings name), r.ResolvesIn m := by
    intro r hr
    exact deps_resolve h settings name _ (Step.mem_of_mem_written hr)
  have hquiet : ∀ r ∈ Step.written (deps m settings name), (r.line p).IsQuiet := by
    intro r hr
    exact r.line_isQuiet p (hresolve r hr)
  apply Constraint.eq_map_of_forall₂ (Step.runAll_of_texts hquiet).1
  intro r hr line hline
  have htext : (r.line p).ending = .ok (p.partsText (r.parts p.dialect)) := by
    rw [Printer.partsText_parts, Record.ending_line (hresolve r hr)]
  exact Except.ok.inj (hline.symm.trans htext)

end Kconfig
