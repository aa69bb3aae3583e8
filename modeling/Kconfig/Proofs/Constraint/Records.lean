import Kconfig.Proofs.Constraint.Soundness
import Kconfig.Proofs.Run.Plan

/-!
# The records that are written

Every record is written for one symbol of the table, in one of the two passes. `Constraint.records`
is what an encoding gets to write, each record with the id of its symbol, up to where the encoding
stops. For a sound model these are exactly the lines of the output, one write for each
(`Constraint.extract_writes`), so whatever holds of the records holds of what is written.
-/

namespace Kconfig

open Run (IsQuiet)

/-! ## Texts -/

namespace Printer

/-- Nothing is written while the name of a symbol of the table is found. -/
theorem symbol_isQuiet (p : Printer) (role : Role) {sym : SymbolRef} (h : p.model.Resolves sym) :
    (p.symbol role sym).IsQuiet := by
  rw [p.symbol_of_resolves role h]
  exact Run.isQuiet_pure _

/-- Nothing is written while a token is spelled out, if the table has what it is about. -/
theorem token_isQuiet (p : Printer) {e : Expr} (h : p.model.ResolvesAll e) {t : Token}
    (ht : t.IsOf e) : (p.token t).IsQuiet := by
  rw [p.token_of_isOf h ht]
  refine ⟨?_, _, rfl⟩
  cases t.note? <;> rfl

/-- Nothing is written while an expression is put into text, if the table has its references. -/
theorem render_isQuiet (p : Printer) (enclosing : Option ExprKind) {e : Expr}
    (h : p.model.ResolvesAll e) : (p.render enclosing e).IsQuiet := by
  have htokens : ((p.dialect.layout enclosing e).mapM p.token).IsQuiet := by
    apply IsQuiet.mapM
    intro t ht
    exact p.token_isQuiet h (p.dialect.isOf_layout enclosing e t ht)
  apply htokens.bind
  intro texts
  exact Run.isQuiet_pure _

/-- Nothing is written while a condition is put into text, if the table has its references. -/
theorem condition_isQuiet (p : Printer) {e : Option Expr} (h : ∀ e' ∈ e, p.model.ResolvesAll e') :
    (p.condition e).IsQuiet := by
  rcases e with _ | e
  · exact Run.isQuiet_pure "1"
  · exact p.render_isQuiet none (h e rfl)

end Printer

namespace Record

/-- Nothing is written while the text of a record is found, if the table has what it refers to. -/
theorem text_isQuiet (p : Printer) {r : Record} (h : r.ResolvesIn p.model) :
    (r.text p).IsQuiet := by
  cases r with
  | config name type => exact Run.isQuiet_pure _
  | prompt name visible | dep name visible | revDep name visible =>
    apply (p.condition_isQuiet h).bind
    intro text
    exact Run.isQuiet_pure _
  | default name boolean value visible =>
    apply (p.render_isQuiet none h.1).bind
    intro valueText
    apply (p.condition_isQuiet h.2).bind
    intro text
    exact Run.isQuiet_pure _
  | choice id tristate optional members visible morePrompts =>
    have hmembers : (members.mapM (p.symbol .plain)).IsQuiet := by
      apply IsQuiet.mapM
      intro sym hsym
      exact p.symbol_isQuiet .plain (h.1 sym hsym)
    apply hmembers.bind
    intro memberTexts
    apply (p.condition_isQuiet h.2).bind
    intro text
    cases morePrompts with
    | false => exact Run.isQuiet_pure _
    | true =>
      apply (Run.isQuiet_log _).bind
      intro _
      exact Run.isQuiet_pure _
  | select selected name visible =>
    apply (p.condition_isQuiet h.1).bind
    intro selectedText
    apply (p.condition_isQuiet h.2).bind
    intro text
    exact Run.isQuiet_pure _

/-- Nothing is written while the line of a record is found, if the table has what it refers to. -/
theorem line_isQuiet (p : Printer) {r : Record} (h : r.ResolvesIn p.model) :
    (r.line p).IsQuiet := by
  apply (text_isQuiet p h).bind
  intro text
  exact Run.isQuiet_pure _

end Record

/-! ## Records and their symbols -/

namespace Constraint

/-- The first pass, each record with its symbol. -/
def declarationPlan (m : Model) : List (Step (SymbolId × Record)) :=
  m.entries.flatMap fun (id, s) => (declarations s).map (Step.map (id, ·))

/-- The second pass, each record with its symbol. -/
def rulePlan (m : Model) (settings : Settings) : List (Step (SymbolId × Record)) :=
  m.entries.flatMap fun (id, s) => (rules m settings id s).map (Step.map (id, ·))

/-- The records that an encoding writes, each with the symbol that it is written for. -/
def records (m : Model) (settings : Settings) : List (SymbolId × Record) :=
  Step.written (declarationPlan m ++ rulePlan m settings)

variable {m : Model}

/-- Forgetting the id that steps were marked with gives the steps back. -/
theorem map_snd_plan (id : SymbolId) (steps : List (Step Record)) :
    (steps.map (Step.map (id, ·))).map (Step.map Prod.snd) = steps := by
  rw [List.map_map]
  conv => rhs; rw [← List.map_id steps]
  apply List.map_congr_left
  intro step _
  cases step <;> rfl

/-- The encoding is the two passes, without the symbols. -/
theorem encoding_eq (m : Model) (settings : Settings) :
    encoding m settings = .note (.extracting m.symbols.size) ::
      (declarationPlan m ++ rulePlan m settings).map (Step.map Prod.snd) := by
  unfold encoding declarationPlan rulePlan
  simp only [List.map_append, List.map_flatMap, map_snd_plan, List.cons_append]

/-- What is written of a sound model resolves. -/
theorem records_resolve (h : m.IsSound) (settings : Settings) :
    ∀ x ∈ records m settings, x.2.ResolvesIn m := by
  intro x hx
  have hmem : Step.map Prod.snd (.write x) ∈
      (declarationPlan m ++ rulePlan m settings).map (Step.map Prod.snd) :=
    List.mem_map_of_mem (Step.mem_of_mem_written hx)
  have hstep : .write x.2 ∈ encoding m settings := by
    rw [encoding_eq]
    exact List.mem_cons_of_mem _ hmem
  exact encoding_resolves h settings _ hstep

/-- The encoding of a sound model writes the line of each record, and ends as its second pass
does. -/
theorem extract_writes (h : m.IsSound) (settings : Settings) :
    List.Forall₂ (fun x line => (x.2.line ⟨m, settings.namePrefix, .logic⟩).ending = .ok line)
        (records m settings) (extract m settings).writes ∧
      (extract m settings).ending = Step.ending (declarationPlan m ++ rulePlan m settings) := by
  have htexts : ∀ x ∈ records m settings,
      (x.2.line ⟨m, settings.namePrefix, .logic⟩).IsQuiet := by
    intro x hx
    exact Record.line_isQuiet ⟨m, settings.namePrefix, .logic⟩ (records_resolve h settings x hx)
  have hplan := Step.runAll_of_texts htexts
  unfold extract
  rw [encoding_eq, Step.runAll_cons, Step.runAll_map]
  exact hplan

/-- The first pass does not stop. -/
theorem ending_declarations (s : Symbol) : Step.ending (declarations s) = .ok () := by
  apply Step.ending_of_goesOn
  unfold declarations
  rcases s.named with _ | name
  · exact List.forall_mem_nil _
  · cases s.kind.constraintName with
    | none => exact List.forall_mem_singleton.mpr trivial
    | some type =>
      simp only [List.cons_append, List.forall_mem_cons, List.forall_mem_append]
      refine ⟨trivial, ?_, ?_⟩
      · simp only [List.mem_map]
        rintro step ⟨p, -, rfl⟩
        trivial
      · simp only [List.mem_filterMap, Option.map_eq_some_iff]
        rintro step ⟨p, -, value, -, rfl⟩
        trivial

/-- The first pass does not stop. -/
theorem ending_declarationPlan (m : Model) : Step.ending (declarationPlan m) = .ok () := by
  apply Step.ending_flatMap
  intro x _
  rw [Step.ending_map]
  exact ending_declarations x.2

/-- The records of the first pass. -/
def declared (m : Model) : List (SymbolId × Record) :=
  m.entries.flatMap fun x => (Step.written (declarations x.2)).map (x.1, ·)

/-- All records of the first pass are written, and then come those of the second. -/
theorem records_eq (m : Model) (settings : Settings) :
    records m settings = declared m ++ Step.written (rulePlan m settings) := by
  unfold records declared
  rw [Step.written_append (ending_declarationPlan m)]
  unfold declarationPlan
  rw [Step.written_flatMap]
  · simp only [Step.written_map]
  · intro x _
    rw [Step.ending_map]
    exact ending_declarations x.2

/-! ## Where a record comes from -/

/-- The first pass gets to every symbol of the table. -/
theorem mem_declared_iff {x : SymbolId × Record} :
    x ∈ declared m ↔ ∃ s, m.symbol? x.1 = some s ∧ x.2 ∈ Step.written (declarations s) := by
  constructor
  · intro h
    obtain ⟨⟨id, s⟩, hs, hx⟩ := List.mem_flatMap.mp h
    obtain ⟨r, hr, rfl⟩ := List.mem_map.mp hx
    exact ⟨s, Model.mem_entries_iff.mp hs, hr⟩
  · rintro ⟨s, hs, hr⟩
    exact List.mem_flatMap.mpr ⟨(x.1, s), Model.mem_entries_iff.mpr hs, List.mem_map_of_mem hr⟩

/-- A record of the second pass is written by the rules of its symbol. -/
theorem exists_rule_of_mem_rulePlan {settings : Settings} {x : SymbolId × Record}
    (h : x ∈ Step.written (rulePlan m settings)) :
    ∃ s, m.symbol? x.1 = some s ∧ .write x.2 ∈ rules m settings x.1 s := by
  obtain ⟨⟨id, s⟩, hs, hstep⟩ := List.mem_flatMap.mp (Step.mem_of_mem_written h)
  obtain ⟨step, hrule, hx⟩ := List.mem_map.mp hstep
  cases step with
  | write r =>
    obtain rfl := Step.write.inj hx
    exact ⟨s, Model.mem_entries_iff.mp hs, hrule⟩
  | note message => cases hx
  | stop reason => cases hx

/-- A record is written for a symbol of the table, in one of its two plans. -/
theorem exists_plan_of_mem_records {settings : Settings} {x : SymbolId × Record}
    (h : x ∈ records m settings) :
    ∃ s, m.symbol? x.1 = some s ∧
      (x.2 ∈ Step.written (declarations s) ∨ .write x.2 ∈ rules m settings x.1 s) := by
  rw [records_eq, List.mem_append] at h
  rcases h with hdeclared | hruled
  · obtain ⟨s, hs, hr⟩ := mem_declared_iff.mp hdeclared
    exact ⟨s, hs, .inl hr⟩
  · obtain ⟨s, hs, hr⟩ := exists_rule_of_mem_rulePlan hruled
    exact ⟨s, hs, .inr hr⟩

end Constraint

end Kconfig
