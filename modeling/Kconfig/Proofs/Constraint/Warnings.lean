import Kconfig.Proofs.Condition.Degradation
import Kconfig.Proofs.Constraint.InvalidChoice
import Kconfig.Proofs.Run.Messages

/-!
# What the encoding warns of

A record is written with a warning for each node in its conditions that cannot be said, and a choice
with one more if it has prompts that do not count (`Record.notes`). Nothing else in an encoding is a
warning, so the warnings are those of the records, in their order
(`Constraint.warnings_extract`).

Not every expression of a model is put into text: only options have declarations and dependencies,
a default counts only if it has a value, and of the prompts of a choice only the first does.
`Constraint.rendered` has the expressions that are, each as often as it is. The encoding of a
checked model whose choices have types that choices can have is silent exactly if all of these can
be said and no choice has a second prompt (`Constraint.degradation_reported`).
-/

namespace Kconfig

/-! ## Records -/

namespace Record

/-- The expressions of a record, in the order in which they are put into text. -/
def exprs : Record → List Expr
  | config _ _ => []
  | prompt _ visible => visible.toList
  | default _ _ value visible => value :: visible.toList
  | choice _ _ _ _ visible _ => visible.toList
  | dep _ condition => condition.toList
  | select selected _ visible => selected.toList ++ visible.toList
  | revDep _ condition => condition.toList

/-- What is said of prompts that do not count. -/
def ignoredPrompts : Record → List Diagnostic
  | choice id _ _ _ _ true => [.promptsIgnored id]
  | _ => []

/-- What is said while a record is put into text. -/
def notes (d : Dialect) (r : Record) : List Diagnostic :=
  r.exprs.flatMap d.placeholders ++ r.ignoredPrompts

/-- What is said on the way to the line of a record. -/
theorem messages_line {p : Printer} {r : Record} (h : r.ResolvesIn p.model) :
    (r.line p).messages = r.notes p.dialect := by
  cases r with
  | config name type => rfl
  | prompt name visible | dep name visible | revDep name visible =>
    simp only [line, text, bind_assoc, pure_bind]
    rw [Run.messages_bind_of_ok (Printer.ending_condition h), p.messages_condition h]
    rfl
  | default name boolean value visible =>
    simp only [line, text, bind_assoc, pure_bind]
    rw [Run.messages_bind_of_ok (Printer.ending_render h.1),
      Run.messages_bind_of_ok (Printer.ending_condition h.2), p.messages_render none h.1,
      p.messages_condition h.2, ← List.append_assoc]
    rfl
  | choice id tristate optional members visible morePrompts =>
    have hmembers : (members.mapM (p.symbol .plain)).messages = [] := by
      rw [Run.mapM_of_ok fun sym hsym => p.symbol_of_resolves .plain (h.1 sym hsym)]
      simp [Run.messages]
    simp only [line, text, bind_assoc]
    rw [Run.messages_bind_of_ok (Printer.ending_symbols h.1), hmembers,
      Run.messages_bind_of_ok (Printer.ending_condition h.2), p.messages_condition h.2]
    cases morePrompts <;> rfl
  | select selected name visible =>
    simp only [line, text, bind_assoc, pure_bind]
    rw [Run.messages_bind_of_ok (Printer.ending_condition h.1),
      Run.messages_bind_of_ok (Printer.ending_condition h.2), p.messages_condition h.1,
      p.messages_condition h.2, notes, exprs, List.flatMap_append, List.append_assoc]
    rfl

end Record

namespace Constraint

variable {m : Model} {settings : Settings} {s : Symbol}

/-! ## Warnings -/

/-- The encoding of a sound model says what its plan says. -/
theorem messages_extract (h : m.IsSound) (settings : Settings) :
    (extract m settings).messages = Step.said (Record.notes .logic) (encoding m settings) := by
  apply Step.messages_runAll
  intro r hr
  have hresolves : r.ResolvesIn m := encoding_resolves h settings _ (Step.mem_of_mem_written hr)
  exact ⟨Record.messages_line (p := linePrinter m settings) hresolves, _,
    Record.ending_line (p := linePrinter m settings) hresolves⟩

/-- Whatever is said on the way to a record is a warning. -/
theorem level_notes (d : Dialect) (r : Record) : ∀ message ∈ r.notes d, message.level = .warn := by
  intro message hmessage
  rcases List.mem_append.mp hmessage with hmessage | hmessage
  · obtain ⟨e, -, hmessage⟩ := List.mem_flatMap.mp hmessage
    obtain ⟨node, -, hnode⟩ := List.mem_filterMap.mp hmessage
    exact Dialect.level_placeholder hnode
  · cases r with
    | choice id tristate optional members visible morePrompts =>
      cases morePrompts with
      | false => cases hmessage
      | true =>
        obtain rfl := List.mem_singleton.mp hmessage
        rfl
    | config | prompt | default | dep | select | revDep => cases hmessage

/-- The first pass says only which symbols it leaves out. -/
theorem level_of_note_declarations {message : Diagnostic} (h : .note message ∈ declarations s) :
    message.level = .debug := by
  unfold declarations at h
  rcases hname : s.named with _ | name
  · simp only [hname] at h
    cases h
  · cases htype : s.kind.constraintName with
    | none =>
      simp only [hname, htype, List.mem_singleton] at h
      obtain rfl := Step.note.inj h
      rfl
    | some type =>
      simp [hname, htype] at h

/-- The second pass says nothing. -/
theorem note_notMem_rules (id : SymbolId) {message : Diagnostic} :
    .note message ∉ rules m settings id s := by
  unfold rules choiceRule
  rw [List.mem_append, not_or]
  constructor
  · split
    · split <;> simp
    · exact List.not_mem_nil
  · rcases s.named with _ | name
    · exact List.not_mem_nil
    · simp only
      split
      · exact List.not_mem_nil
      · rw [dependencies_eq_map_write]
        simp

/-- What an encoding says of its own accord is no warning. -/
theorem level_of_note {message : Diagnostic} (h : .note message ∈ encoding m settings) :
    message.level = .debug := by
  unfold encoding at h
  simp only [List.cons_append, List.mem_cons, List.mem_append, List.mem_flatMap] at h
  rcases h with h | ⟨x, -, h⟩ | ⟨x, -, h⟩
  · obtain rfl := Step.note.inj h
    rfl
  · exact level_of_note_declarations h
  · exact absurd h (note_notMem_rules x.1)

/-- The warnings of an encoding are those that come with its records. -/
theorem warnings_extract (h : m.IsSound) (settings : Settings) :
    (extract m settings).messages.filter (fun message => message.level = .warn) =
      (records m settings).flatMap fun x => x.2.notes .logic := by
  have hwritten : Step.written (encoding m settings) = (records m settings).map Prod.snd := by
    rw [encoding_eq, records, ← Step.written_map]
    rfl
  rw [messages_extract h, Step.filter_said, hwritten, List.flatMap_map]
  · intro r message hmessage
    exact decide_eq_true (level_notes .logic r message hmessage)
  · intro message hmessage
    rw [decide_eq_true_eq, level_of_note hmessage]
    exact nofun

/-! ## What is put into text -/

/-- The expressions that the first pass puts into text for a symbol. -/
def declarationExprs (s : Symbol) : List Expr :=
  match s.class with
  | .option _ =>
    (s.prompts.flatMap fun p => p.visible.toList) ++
      s.defaults.flatMap fun p => p.expr.toList.flatMap fun value => value :: p.visible.toList
  | .truth _ | .value _ => []

/-- The expressions that the second pass puts into text for a symbol. -/
def ruleExprs (settings : Settings) (s : Symbol) : List Expr :=
  (if s.isChoice then (s.prompts.head?.bind Property.visible).toList else []) ++
    match s.class with
    | .option _ =>
      s.dirDep.toList ++
        if settings.reverseDependencies then
          (s.selects.flatMap fun p => p.expr.toList ++ p.visible.toList) ++ s.revDep.toList
        else []
    | .truth _ | .value _ => []

/-- The expressions that an encoding puts into text, as long as no choice stops it. -/
def rendered (m : Model) (settings : Settings) : List Expr :=
  (m.entries.flatMap fun x => declarationExprs x.2) ++
    m.entries.flatMap fun x => ruleExprs settings x.2

/-- The expressions put into text for the declarations of a symbol. -/
theorem flatMap_exprs_declarations (s : Symbol) :
    (Step.written (declarations s)).flatMap Record.exprs = declarationExprs s := by
  unfold declarationExprs
  cases hclass : s.class with
  | truth | value =>
    rw [written_declarations_eq_nil (by rw [hclass]; exact nofun)]
    rfl
  | option name =>
    obtain ⟨type, -, hwritten⟩ := written_declarations hclass
    have hdefaults : (s.defaults.filterMap fun (p : Property) => p.expr.map fun value =>
        Record.default name s.kind.isBoolean value p.visible).flatMap Record.exprs =
          s.defaults.flatMap fun p =>
            p.expr.toList.flatMap fun value => value :: p.visible.toList := by
      rw [List.filterMap_eq_flatMap_toList, List.flatMap_assoc]
      apply List.flatMap_congr
      intro p _
      rcases p.expr with _ | value <;> rfl
    rw [hwritten, List.flatMap_cons, List.flatMap_append, List.flatMap_map, hdefaults]
    rfl

/-- The expressions put into text for the dependencies of an option. -/
theorem flatMap_exprs_dependencyRecords (settings : Settings) (name : String) (s : Symbol) :
    (dependencyRecords settings name s).flatMap Record.exprs =
      s.dirDep.toList ++
        if settings.reverseDependencies then
          (s.selects.flatMap fun p => p.expr.toList ++ p.visible.toList) ++ s.revDep.toList
        else [] := by
  have hdirect : (s.dirDep.toList.map fun e => Record.dep name (some e)).flatMap Record.exprs =
      s.dirDep.toList := by
    cases s.dirDep <;> rfl
  have hreverse : (s.revDep.toList.map fun e => Record.revDep name (some e)).flatMap Record.exprs =
      s.revDep.toList := by
    cases s.revDep <;> rfl
  rw [dependencyRecords, List.flatMap_append, List.flatMap_append, hdirect]
  -- a dependency that always holds has no expression
  split <;> split <;>
    simp [List.flatMap_append, hreverse, List.flatMap_map, Record.exprs]

/-- The records that the second pass writes for a symbol, its choice apart. -/
def optionRules (settings : Settings) (s : Symbol) : List Record :=
  match s.class with
  | .option name => dependencyRecords settings name s
  | .truth _ | .value _ => []

/-- What the second pass writes for a symbol at which it does not stop. -/
theorem written_rules (id : SymbolId) (h : ¬ s.IsInvalidChoice) :
    Step.written (rules m settings id s) =
      (if s.isChoice then [.choice id (s.kind = .tristate) (m.isOptionalChoice s)
        (m.choiceMembers id s) (s.prompts.head?.bind Property.visible) (1 < s.prompts.length)]
      else []) ++ optionRules settings s := by
  have hending := ending_rules (m := m) settings id h
  rw [Symbol.isInvalidChoice_iff, not_and, not_not] at h
  unfold rules at hending ⊢
  obtain ⟨hgo, -⟩ := Step.ending_append_eq_ok_iff.mp hending
  rw [Step.written_append hgo]
  congr 1
  · by_cases hchoice : s.isChoice
    · rw [if_pos hchoice, if_pos hchoice, choiceRule, if_pos (h hchoice)]
      rfl
    · rw [if_neg hchoice, if_neg hchoice]
      rfl
  · unfold optionRules Symbol.class
    rcases s.named with _ | name
    · rfl
    · by_cases hkind : s.kind = .unknown
      · simp only [if_pos hkind]
        rfl
      · simp only [if_neg hkind, written_dependencies]

/-- The expressions put into text for the rules of a symbol. -/
theorem flatMap_exprs_rules (id : SymbolId) (h : ¬ s.IsInvalidChoice) :
    (Step.written (rules m settings id s)).flatMap Record.exprs = ruleExprs settings s := by
  rw [written_rules id h, List.flatMap_append, ruleExprs]
  congr 1
  · split
    · exact List.flatMap_singleton _ _
    · rfl
  · unfold optionRules
    cases s.class with
    | truth | value => rfl
    | option name => exact flatMap_exprs_dependencyRecords settings name s

/-- Of each symbol, what its records in the two passes have. -/
theorem flatMap_records {α : Type} (h : ∀ s ∈ m.symbols, ¬ s.IsInvalidChoice)
    (f : Record → List α) :
    (records m settings).flatMap (fun x => f x.2) =
      (m.entries.flatMap fun x => (Step.written (declarations x.2)).flatMap f) ++
        m.entries.flatMap fun x => (Step.written (rules m settings x.1 x.2)).flatMap f := by
  have hreached : reached m = m.entries := by
    rw [reached, List.takeWhile_eq_self_iff]
    intro x hx
    exact decide_eq_true (h x.2 (Model.mem_symbols_of_mem_entries hx))
  rw [records_eq_reached, hreached, declared, ruledOf, List.flatMap_append, List.flatMap_assoc,
    List.flatMap_assoc]
  simp only [List.flatMap_map]

/-- The expressions of the records are those that are put into text. -/
theorem flatMap_exprs_records (h : ∀ s ∈ m.symbols, ¬ s.IsInvalidChoice) (settings : Settings) :
    (records m settings).flatMap (fun x => x.2.exprs) = rendered m settings := by
  rw [flatMap_records h Record.exprs, rendered]
  congr 1
  · simp only [flatMap_exprs_declarations]
  · apply List.flatMap_congr
    intro x hx
    exact flatMap_exprs_rules x.1 (h x.2 (Model.mem_symbols_of_mem_entries hx))

/-- Prompts count wherever a record is about an option. -/
theorem ignoredPrompts_of_subject {r : Record} {name : String} (h : r.subject? = some name) :
    r.ignoredPrompts = [] := by
  cases r with
  | choice => cases h
  | config | prompt | default | dep | select | revDep => rfl

/-- Records that are about options say nothing of prompts. -/
theorem flatMap_ignoredPrompts_of_subject {rs : List Record} (name : String)
    (h : ∀ r ∈ rs, r.subject? = some name) :
    rs.flatMap Record.ignoredPrompts = [] := by
  rw [List.flatMap_eq_nil_iff]
  intro r hr
  exact ignoredPrompts_of_subject (h r hr)

/-- The declarations of a symbol say nothing of prompts that do not count. -/
theorem flatMap_ignoredPrompts_declarations (s : Symbol) :
    (Step.written (declarations s)).flatMap Record.ignoredPrompts = [] := by
  by_cases hclass : ∃ name, s.class = .option name
  · obtain ⟨name, hclass⟩ := hclass
    exact flatMap_ignoredPrompts_of_subject name fun r hr =>
      (mem_written_declarations hclass hr).1
  · rw [written_declarations_eq_nil (not_exists.mp hclass)]
    rfl

/-- The rules of a symbol say that prompts do not count just if it is a choice with several of them.
-/
theorem flatMap_ignoredPrompts_rules (id : SymbolId) (h : ¬ s.IsInvalidChoice) :
    (Step.written (rules m settings id s)).flatMap Record.ignoredPrompts =
      if s.isChoice ∧ 1 < s.prompts.length then [.promptsIgnored id] else [] := by
  have hoption : (optionRules settings s).flatMap Record.ignoredPrompts = [] := by
    unfold optionRules
    cases s.class with
    | truth | value => rfl
    | option name =>
      apply flatMap_ignoredPrompts_of_subject name
      intro r (hr : r ∈ dependencyRecords settings name s)
      rw [← written_dependencies] at hr
      exact (dependencies_admitted settings name s _ (Step.mem_of_mem_written hr)).2
  rw [written_rules id h, List.flatMap_append, hoption, List.append_nil]
  by_cases hchoice : s.isChoice <;> by_cases hprompts : 1 < s.prompts.length <;>
    simp [hchoice, hprompts, Record.ignoredPrompts]

/-- Prompts that do not count are those of choices that have more than one. -/
theorem exists_ignoredPrompts_iff (h : ∀ s ∈ m.symbols, ¬ s.IsInvalidChoice)
    (settings : Settings) :
    (∃ x ∈ records m settings, x.2.ignoredPrompts ≠ []) ↔
      ∃ s ∈ m.symbols, s.isChoice ∧ 1 < s.prompts.length := by
  have hrecords : (records m settings).flatMap (fun x => x.2.ignoredPrompts) =
      m.entries.flatMap fun x =>
        if x.2.isChoice ∧ 1 < x.2.prompts.length then [.promptsIgnored x.1] else [] := by
    rw [flatMap_records h]
    simp only [flatMap_ignoredPrompts_declarations]
    rw [List.flatMap_eq_nil_iff.mpr fun _ _ => rfl, List.nil_append]
    apply List.flatMap_congr
    intro x hx
    exact flatMap_ignoredPrompts_rules x.1 (h x.2 (Model.mem_symbols_of_mem_entries hx))
  calc (∃ x ∈ records m settings, x.2.ignoredPrompts ≠ [])
      ↔ (records m settings).flatMap (fun x => x.2.ignoredPrompts) ≠ [] := by
        simp [List.flatMap_eq_nil_iff]
    _ ↔ ∃ x ∈ m.entries, x.2.isChoice ∧ 1 < x.2.prompts.length := by
        rw [hrecords]
        simp [List.flatMap_eq_nil_iff]
    _ ↔ ∃ s ∈ m.symbols, s.isChoice ∧ 1 < s.prompts.length := by
        constructor
        · rintro ⟨x, hx, hchoice⟩
          exact ⟨x.2, Model.mem_symbols_of_mem_entries hx, hchoice⟩
        · rintro ⟨s, hs, hchoice⟩
          obtain ⟨id, hentry⟩ := Model.exists_mem_entries hs
          exact ⟨(id, s), hentry, hchoice⟩

/-! ## Silence -/

/-- A record of the encoding comes with a warning if a node in it is not known or prompts do not
count. -/
theorem exists_mem_notes_iff {r : Record} :
    (∃ message, message ∈ r.notes .logic) ↔
      (∃ e ∈ r.exprs, .unknown ∈ e.nodes) ∨ r.ignoredPrompts ≠ [] := by
  simp only [Record.notes, List.mem_append, List.mem_flatMap, exists_or,
    Dialect.mem_placeholders_logic_iff, ne_eq, List.eq_nil_iff_forall_not_mem, not_forall, not_not]
  apply or_congr_left
  constructor
  · rintro ⟨message, e, he, -, hunknown⟩
    exact ⟨e, he, hunknown⟩
  · rintro ⟨e, he, hunknown⟩
    exact ⟨_, e, he, rfl, hunknown⟩

/-- Nothing that cannot be said goes unreported, and nothing else is reported. While an expression
is put into text, there is one message for each node that the dialect cannot say, in their order.
The encoding of a checked model whose choices have types that choices can have comes with a warning
exactly if a node is not known of an expression that it puts into text, or a choice has more than
one prompt. -/
theorem degradation_reported :
    (∀ (p : Printer) (enclosing : Option ExprKind) (e : Expr), p.model.ResolvesAll e →
      (p.render enclosing e).messages = e.nodes.filterMap p.dialect.placeholder?) ∧
      ∀ m : Model, m.validate = .ok () →
        (∀ s ∈ m.symbols, s.isChoice → s.kind = .bool ∨ s.kind = .tristate) →
        ∀ settings, (∃ message ∈ (extract m settings).messages, message.level = .warn) ↔
          (∃ e ∈ rendered m settings, .unknown ∈ e.nodes) ∨
            ∃ s ∈ m.symbols, s.isChoice ∧ 1 < s.prompts.length := by
  refine ⟨fun p enclosing e => p.messages_render enclosing, ?_⟩
  intro m hcheck hkinds settings
  have hvalid : ∀ s ∈ m.symbols, ¬ s.IsInvalidChoice := by
    rintro s hs ⟨hchoice, hbool, htristate⟩
    exact (hkinds s hs hchoice).elim hbool htristate
  have hwarnings := warnings_extract (Model.validate_eq_ok_iff.mp hcheck) settings
  -- a warning comes from some record: from its expressions, or from its prompts
  have hrecords : (∃ message ∈ (extract m settings).messages, message.level = .warn) ↔
      ∃ x ∈ records m settings, ∃ message, message ∈ x.2.notes .logic := by
    calc (∃ message ∈ (extract m settings).messages, message.level = .warn)
        ↔ ∃ message, message ∈ (records m settings).flatMap fun x => x.2.notes .logic := by
          simp only [← hwarnings, List.mem_filter, decide_eq_true_eq]
      _ ↔ ∃ x ∈ records m settings, ∃ message, message ∈ x.2.notes .logic := by
          simp only [List.mem_flatMap]
          exact ⟨fun ⟨d, x, hx, hd⟩ => ⟨x, hx, d, hd⟩, fun ⟨x, hx, d, hd⟩ => ⟨d, x, hx, hd⟩⟩
  rw [hrecords, ← exists_ignoredPrompts_iff hvalid settings, ← flatMap_exprs_records hvalid]
  simp only [exists_mem_notes_iff, List.mem_flatMap, and_or_left, exists_or]
  apply or_congr_left
  constructor
  · rintro ⟨x, hx, e, he, hunknown⟩
    exact ⟨e, ⟨x, hx, he⟩, hunknown⟩
  · rintro ⟨e, ⟨x, hx, he⟩, hunknown⟩
    exact ⟨x, hx, e, he, hunknown⟩

/-- Nodes that are not known where nothing is put into text: at a default without a value, at a weak
select, and in the value of a symbol without a type. -/
def unaskedUnknowns : Model where
  symbols := #[
    { name := some "A", kind := .bool,
      properties := [
        { kind := .default, visible := some .unknown },
        { kind := .imply, expr := some .unknown }] },
    { name := some "42", properties := [{ kind := .default, expr := some .unknown }] }]

/-- A choice with one node that is not known, in the condition of its first prompt. -/
def unknownPrompt : Model where
  symbols := #[
    { kind := .bool, flags := .choice,
      properties := [{ kind := .prompt, visible := some (.not .unknown) }] }]

/-- A replaced comparison and a replaced node are told of in their order; `extract` does not warn of
nodes that it does not put into text, and warns of one that it does. -/
theorem degradation_reported_fixed :
    (Printer.render ⟨unaskedUnknowns, "", .boolean⟩ none
        (.and (.compare .less (.entry ⟨0⟩) (.entry ⟨1⟩)) (.not .unknown))).messages =
      [.comparisonReplaced .less, .unknownReplaced] ∧
      unaskedUnknowns.validate = .ok () ∧ unknownPrompt.validate = .ok () ∧
      (¬ ∃ message ∈ (extract unaskedUnknowns {}).messages, message.level = .warn) ∧
      ∃ message ∈ (extract unknownPrompt {}).messages, message.level = .warn := by
  have hunasked : unaskedUnknowns.validate = .ok () := by
    rw [Model.validate, Model.menus, Menu.descendants_eq_preorder]
    rfl
  have hprompt : unknownPrompt.validate = .ok () := by
    rw [Model.validate, Model.menus, Menu.descendants_eq_preorder]
    rfl
  refine ⟨?_, hunasked, hprompt, ?_, ?_⟩
  · have hrefs : ∀ sym ∈ [SymbolRef.entry ⟨0⟩, .entry ⟨1⟩], unaskedUnknowns.Resolves sym := by
      decide
    exact degradation_reported.1 ⟨unaskedUnknowns, "", .boolean⟩ none _ hrefs
  · rw [degradation_reported.2 unaskedUnknowns hunasked (by decide) {}]
    decide
  · rw [degradation_reported.2 unknownPrompt hprompt (by decide) {}]
    decide

end Constraint

end Kconfig
