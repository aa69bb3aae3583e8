import Kconfig.Proofs.Constraint.Blocks
import Kconfig.Proofs.Constraint.ChoiceShape
import Kconfig.Proofs.Model.Altered
import Mathlib.Data.List.TakeWhile

/-!
# Where the encoding stops

A choice is a choice of truth values. At one of another type the second pass stops, before it writes
anything for the symbol, and nothing else stops it: the texts of a checked model are all there, and
a node that cannot be said has a placeholder. So the second pass goes through the entries before the
first such choice (`Constraint.reached`), and what is written is the first block as a whole and of
the second block the lines of these entries (`Constraint.extract_stops`).

The model whose invalid choices are no choices any more is encoded to the end
(`Model.withoutInvalidChoices`). It begins with the same bytes: the entries before the first invalid
choice are the same, and the flags of the others are not seen by anything that is written for them.
-/

namespace Kconfig

/-! ## Lines of altered models -/

namespace Printer

variable {p : Printer} {m' : Model}

/-- What a class is called does not depend on the model. -/
theorem className_withModel : (p.withModel m').className = p.className := by
  funext role c
  unfold className
  rfl

/-- The texts of tokens depend on a model by what references stand for. -/
theorem tokenText_withModel (h : m'.classOf = p.model.classOf) :
    (p.withModel m').tokenText = p.tokenText := by
  have hdialect : (p.withModel m').dialect = p.dialect := rfl
  have hclass : (p.withModel m').model.classOf = p.model.classOf := h
  funext t
  unfold tokenText
  rw [className_withModel, hdialect, hclass]

/-- An expression has the same text in a model that classifies alike. -/
theorem exprText_withModel (h : m'.classOf = p.model.classOf) :
    (p.withModel m').exprText = p.exprText := by
  funext e
  rw [exprText, exprText, tokenText_withModel h]
  rfl

/-- A condition has the same text in a model that classifies alike. -/
theorem conditionText_withModel (h : m'.classOf = p.model.classOf) :
    (p.withModel m').conditionText = p.conditionText := by
  funext e
  rw [conditionText, conditionText, exprText_withModel h]

/-- A symbol has the same text in a model that classifies alike. -/
theorem symbolText_withModel (h : m'.classOf = p.model.classOf) :
    (p.withModel m').symbolText = p.symbolText := by
  funext sym
  show (p.withModel m').className .plain (m'.classOf sym) = p.className .plain (p.model.classOf sym)
  rw [className_withModel, h]

end Printer

/-- The line of a record depends on a model by what references stand for. -/
theorem Record.lineText_withModel {p : Printer} {m' : Model} (h : m'.classOf = p.model.classOf) :
    Record.lineText (p.withModel m') = Record.lineText p := by
  have hnames : (p.withModel m').namePrefix = p.namePrefix := rfl
  funext r
  unfold lineText
  rw [hnames, p.symbolText_withModel h, p.exprText_withModel h, p.conditionText_withModel h]

namespace Constraint

variable {m : Model} {settings : Settings} {s : Symbol}

/-! ## The second pass -/

/-- The entries that the second pass gets to: those before the first choice of a type that choices
cannot have. -/
def reached (m : Model) : List (SymbolId × Symbol) :=
  m.entries.takeWhile fun x => ¬ x.2.IsInvalidChoice

/-- What the second pass gets to is in the table. -/
theorem mem_entries_of_mem_reached {x : SymbolId × Symbol} (h : x ∈ reached m) : x ∈ m.entries :=
  (List.takeWhile_prefix _).subset h

/-- No choice that the second pass gets to is of a type that choices cannot have. -/
theorem not_isInvalidChoice_of_mem_reached {x : SymbolId × Symbol} (h : x ∈ reached m) :
    ¬ x.2.IsInvalidChoice := by
  simpa using List.mem_takeWhile_imp h

/-- At an invalid choice the second pass stops at once. -/
theorem rules_of_isInvalidChoice (settings : Settings) (id : SymbolId) (h : s.IsInvalidChoice) :
    ∃ rest, rules m settings id s = .stop (.error (.invalidChoiceType id s.kind)) :: rest := by
  obtain ⟨hchoice, hkind⟩ := Symbol.isInvalidChoice_iff.mp h
  unfold rules choiceRule
  rw [if_pos hchoice, if_neg hkind]
  exact ⟨_, rfl⟩

/-- No other symbol stops it. -/
theorem ending_rules (settings : Settings) (id : SymbolId) (h : ¬ s.IsInvalidChoice) :
    Step.ending (rules m settings id s) = .ok () := by
  rw [Symbol.isInvalidChoice_iff, not_and, not_not] at h
  unfold rules choiceRule
  rw [Step.ending_append_eq_ok_iff]
  constructor
  · split
    · next hchoice =>
      rw [if_pos (h hchoice)]
      rfl
    · rfl
  · rcases s.named with _ | name
    · rfl
    · simp only
      split
      · rfl
      · exact ending_dependencies settings name s

/-- The second pass writes the records of the entries that it gets to, and stops after them if there
are more. -/
theorem rulePlan_stops (m : Model) (settings : Settings) :
    Step.written (rulePlan m settings) =
        ((reached m).flatMap fun x =>
          (Step.written (rules m settings x.1 x.2)).map (x.1, ·)) ∧
      ∀ x, (m.entries.find? fun x => x.2.IsInvalidChoice) = some x →
        Step.ending (rulePlan m settings) =
          .error (.error (.invalidChoiceType x.1 x.2.kind)) := by
  have hgo : ∀ x : SymbolId × Symbol, ¬ x.2.IsInvalidChoice →
      Step.ending ((rules m settings x.1 x.2).map (Step.map (x.1, ·))) = .ok () := by
    intro x hx
    rw [Step.ending_map]
    exact ending_rules settings x.1 hx
  have hstop : ∀ x : SymbolId × Symbol, x.2.IsInvalidChoice →
      ∃ rest, (rules m settings x.1 x.2).map (Step.map (x.1, ·)) =
        .stop (.error (.invalidChoiceType x.1 x.2.kind)) :: rest := by
    intro x hx
    obtain ⟨rest, hrules⟩ := rules_of_isInvalidChoice (m := m) settings x.1 hx
    rw [hrules]
    exact ⟨_, rfl⟩
  have hplan := Step.flatMap_of_stops hgo hstop m.entries
  simp only [Step.written_map] at hplan
  exact hplan

/-- What the second pass writes for some entries. -/
def ruledOf (m : Model) (settings : Settings) (entries : List (SymbolId × Symbol)) :
    List (SymbolId × Record) :=
  entries.flatMap fun x => (Step.written (rules m settings x.1 x.2)).map (x.1, ·)

/-- The records are those of the first pass and those of the entries that the second gets to. -/
theorem records_eq_reached (m : Model) (settings : Settings) :
    records m settings = declared m ++ ruledOf m settings (reached m) := by
  rw [records_eq, (rulePlan_stops m settings).1, ruledOf]

/-- Without an invalid choice, the second pass comes to its end. -/
theorem ending_rulePlan_of_forall (settings : Settings)
    (h : ∀ s ∈ m.symbols, ¬ s.IsInvalidChoice) : Step.ending (rulePlan m settings) = .ok () := by
  unfold rulePlan
  rw [Step.ending_flatMap_eq_ok_iff]
  intro x hx
  rw [Step.ending_map]
  exact ending_rules settings x.1 (h x.2 (Model.mem_symbols_of_mem_entries hx))

/-- With one, it stops at the first. -/
theorem exists_find?_eq_some (h : ∃ s ∈ m.symbols, s.IsInvalidChoice) :
    ∃ x, (m.entries.find? fun x => x.2.IsInvalidChoice) = some x := by
  obtain ⟨s, hs, hinvalid⟩ := h
  obtain ⟨id, hentry⟩ := Model.exists_mem_entries hs
  rw [← Option.isSome_iff_exists, List.find?_isSome]
  exact ⟨(id, s), hentry, decide_eq_true hinvalid⟩

/-- An encoding ends as its second pass does. -/
theorem ending_extract (h : m.IsSound) (settings : Settings) :
    (extract m settings).ending = Step.ending (rulePlan m settings) := by
  rw [(extract_writes h settings).2, Step.ending_append (ending_declarationPlan m)]

/-! ## Models without invalid choices -/

/-- The first pass declares the same where the flags of choices of a wrong type are cleared. -/
theorem declared_withoutInvalidChoices (m : Model) :
    declared m.withoutInvalidChoices = declared m := by
  unfold declared Model.withoutInvalidChoices
  rw [Model.entries_mapSymbols, List.flatMap_map]
  apply List.flatMap_congr
  intro x _
  obtain ⟨flags, hs⟩ := x.2.exists_withoutInvalidChoice_eq
  rw [hs]
  rfl

/-- Nothing stops the second pass any more. -/
theorem reached_withoutInvalidChoices (m : Model) :
    reached m.withoutInvalidChoices = m.withoutInvalidChoices.entries := by
  unfold reached
  rw [List.takeWhile_eq_self_iff]
  intro x hx
  unfold Model.withoutInvalidChoices at hx
  rw [Model.entries_mapSymbols, List.mem_map] at hx
  obtain ⟨y, -, rfl⟩ := hx
  simpa using y.2.not_isInvalidChoice_withoutInvalidChoice

/-- The rules of a symbol are the same where the flags of choices of a wrong type are cleared. -/
theorem rules_withoutInvalidChoices (settings : Settings) (id : SymbolId) (s : Symbol) :
    rules m.withoutInvalidChoices settings id s = rules m settings id s :=
  rules_eq_of_agrees (.refl s) rfl (fun _ => rfl) settings

/-- The records that are written are the first ones of the model without invalid choices. -/
theorem records_isPrefix (m : Model) (settings : Settings) :
    records m settings <+: records m.withoutInvalidChoices settings := by
  have hentries : m.withoutInvalidChoices.entries =
      reached m ++ ((m.entries.dropWhile fun x => ¬ x.2.IsInvalidChoice).map fun x =>
        (x.1, x.2.withoutInvalidChoice)) := by
    conv =>
      lhs
      rw [Model.withoutInvalidChoices, Model.entries_mapSymbols,
        ← List.takeWhile_append_dropWhile (p := fun x => ¬ x.2.IsInvalidChoice) (l := m.entries),
        List.map_append]
    congr 1
    -- an entry that is reached is as it was
    show (reached m).map _ = reached m
    conv => rhs; rw [← List.map_id (reached m)]
    apply List.map_congr_left
    intro x hx
    rw [Symbol.withoutInvalidChoice_eq_self (not_isInvalidChoice_of_mem_reached hx)]
    rfl
  rw [records_eq_reached, records_eq_reached, declared_withoutInvalidChoices,
    reached_withoutInvalidChoices, hentries, List.prefix_append_right_inj]
  simp only [ruledOf, rules_withoutInvalidChoices, List.flatMap_append]
  exact List.prefix_append _ _

/-- What was written up to a choice of a wrong type is the beginning of what is written without the
flag. -/
theorem writes_isPrefix (h : m.IsSound) (settings : Settings) :
    (extract m settings).writes <+: (extract m.withoutInvalidChoices settings).writes := by
  have hclass : m.withoutInvalidChoices.classOf = m.classOf :=
    Model.classOf_mapSymbols Symbol.class_withoutInvalidChoice
  have hline : Record.lineText (linePrinter m.withoutInvalidChoices settings) =
      Record.lineText (linePrinter m settings) :=
    Record.lineText_withModel (p := linePrinter m settings) hclass
  rw [writes_eq_attributedLines h, writes_eq_attributedLines h.withoutInvalidChoices,
    attributedLines, attributedLines, hline, List.map_map, List.map_map]
  exact (records_isPrefix m settings).map _

/-! ## Encodings that stop -/

/-- The encoding of a checked model fails exactly where some symbol, named or not, is a choice of
another type than `bool` or `tristate`, and then by the first of these in the order of the table. It
has then written the first block and of the second the lines of all symbols before this one, which
is how the encoding begins where none of them is a choice. -/
theorem extract_stops (h : m.validate = .ok ()) (settings : Settings) :
    ((∃ reason, (extract m settings).ending = .error reason) ↔
        ∃ s ∈ m.symbols, s.isChoice ∧ s.kind ≠ .bool ∧ s.kind ≠ .tristate) ∧
      (∀ id s, (m.entries.find? fun x => x.2.IsInvalidChoice) = some (id, s) →
        (extract m settings).ending = .error (.error (.invalidChoiceType id s.kind))) ∧
      ((extract m settings).writes =
        (m.entries.flatMap fun x => declarationLines (linePrinter m settings) x.2) ++
          (m.entries.takeWhile fun x => ¬ x.2.IsInvalidChoice).flatMap fun x =>
            ruleLines (linePrinter m settings) settings x.1 x.2) ∧
      utf8 (extract m settings).output <+:
        utf8 (extract m.withoutInvalidChoices settings).output := by
  have hsound := Model.validate_eq_ok_iff.mp h
  have hending := ending_extract hsound settings
  have hstop := (rulePlan_stops m settings).2
  refine ⟨⟨?_, ?_⟩, ?_, ?_, Run.utf8_output_isPrefix (writes_isPrefix hsound settings)⟩
  · rintro ⟨reason, hreason⟩
    by_contra hnone
    rw [hending, ending_rulePlan_of_forall settings fun s hs hinvalid => hnone ⟨s, hs, hinvalid⟩]
      at hreason
    cases hreason
  · intro hinvalid
    obtain ⟨x, hx⟩ := exists_find?_eq_some hinvalid
    exact ⟨_, hending.trans (hstop x hx)⟩
  · intro id s hs
    exact hending.trans (hstop (id, s) hs)
  · rw [writes_eq_attributedLines hsound, attributedLines, records_eq_reached, declared, ruledOf]
    simp only [List.map_append, List.map_flatMap, List.map_map]
    congr 1
    · apply List.flatMap_congr
      intro x _
      exact map_lineText_declarations _ x.2
    · apply List.flatMap_congr
      intro x hx
      exact map_lineText_rules (ending_rules settings x.1 (not_isInvalidChoice_of_mem_reached hx))

/-- A choice of numbers with a name, after an option and before another choice of a type that
choices cannot have. -/
def choiceOfNumbers : Model where
  symbols := #[
    { name := some "A", kind := .bool, dirDep := some (.symbol (.entry ⟨3⟩)) },
    { name := some "N", kind := .int, flags := .choice },
    { kind := .string, flags := .choice },
    { name := some "B", kind := .bool, dirDep := some (.symbol (.entry ⟨0⟩)) }]

/-- The encoding of `choiceOfNumbers` stops at its choice, after the lines of the option before it.
-/
theorem choiceOfNumbers_stops :
    choiceOfNumbers.validate = .ok () ∧
      (∃ reason, (extract choiceOfNumbers {}).ending = .error reason) ∧
      (extract choiceOfNumbers {}).ending =
        .error (.error (.invalidChoiceType ⟨1⟩ .int)) ∧
      (extract choiceOfNumbers {}).writes =
        ["config CONFIG_A bool\n", "config CONFIG_N number\n", "config CONFIG_B bool\n",
          "dep CONFIG_A (CONFIG_B)\n"] ∧
      utf8 (extract choiceOfNumbers {}).output <+:
        utf8 (extract choiceOfNumbers.withoutInvalidChoices {}).output := by
  have hcheck : choiceOfNumbers.validate = .ok () := by
    rw [Model.validate, Model.menus, Menu.descendants_eq_preorder]
    rfl
  obtain ⟨hfails, herror, hwrites, hbegins⟩ := extract_stops hcheck {}
  have hinvalid : ∃ s ∈ choiceOfNumbers.symbols, s.isChoice ∧ s.kind ≠ .bool ∧ s.kind ≠ .tristate :=
    ⟨choiceOfNumbers.symbols[1], Array.getElem_mem _, by decide⟩
  exact ⟨hcheck, hfails.mpr hinvalid, herror ⟨1⟩ _ rfl, hwrites, hbegins⟩

end Constraint

end Kconfig
