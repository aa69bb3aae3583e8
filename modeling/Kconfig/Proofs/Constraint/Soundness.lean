import Kconfig.Constraint.Encoding
import Kconfig.Listing
import Kconfig.Proofs.Condition.Spelling
import Kconfig.Proofs.Model.Soundness
import Kconfig.Proofs.Run.Orderly

/-!
# Constraints of sound models

A record is written in an orderly way where everything in it resolves (`Record.line_orderly`). The
records of a sound model are of this kind, those of the encoding as well as those that one symbol's
dependencies are listed by.
-/

namespace Kconfig

open Model (ResolvesAll IsSound)

/-! ## Texts -/

namespace Printer

/-- A symbol of the table is called by a name or refused with an error. -/
theorem symbol_orderly (p : Printer) (role : Role) {sym : SymbolRef} (h : p.model.Resolves sym) :
    (p.symbol role sym).Orderly := by
  rw [p.symbol_of_resolves role h]
  exact Run.orderly_pure _

/-- An expression is put into text or refused with an error, if the table has its references. -/
theorem render_orderly (p : Printer) (enclosing : Option ExprKind) {e : Expr}
    (h : p.model.ResolvesAll e) : (p.render enclosing e).Orderly := by
  rw [p.render_of_resolves enclosing h]
  trivial

/-- A condition is put into text or refused with an error, if the table has its references. -/
theorem condition_orderly (p : Printer) {e : Option Expr} (h : ∀ e' ∈ e, p.model.ResolvesAll e') :
    (p.condition e).Orderly := by
  rcases e with _ | e
  · exact Run.orderly_pure "1"
  · exact p.render_orderly none (h e rfl)

end Printer

namespace Record

/-- Whether everything that a record refers to resolves. -/
def ResolvesIn (m : Model) : Record → Prop
  | config .. => True
  | prompt _ visible => ∀ e ∈ visible, m.ResolvesAll e
  | default _ _ value visible => m.ResolvesAll value ∧ ∀ e ∈ visible, m.ResolvesAll e
  | choice _ _ _ members visible _ =>
    (∀ sym ∈ members, m.Resolves sym) ∧ ∀ e ∈ visible, m.ResolvesAll e
  | dep _ condition | revDep _ condition => ∀ e ∈ condition, m.ResolvesAll e
  | select selected _ visible =>
    (∀ e ∈ selected, m.ResolvesAll e) ∧ ∀ e ∈ visible, m.ResolvesAll e

/-- The text of a record is found or refused with an error, if the table has what it refers to. -/
theorem text_orderly (p : Printer) {r : Record} (h : r.ResolvesIn p.model) :
    (r.text p).Orderly := by
  cases r with
  | config name type => exact Run.orderly_pure _
  | prompt name visible | dep name visible | revDep name visible =>
    apply (p.condition_orderly h).bind
    intro text _
    exact Run.orderly_pure _
  | default name boolean value visible =>
    apply (p.render_orderly none h.1).bind
    intro valueText _
    apply (p.condition_orderly h.2).bind
    intro text _
    exact Run.orderly_pure _
  | choice id tristate optional members visible morePrompts =>
    have hmembers : (members.mapM (p.symbol .plain)).Orderly := by
      apply Run.Orderly.mapM
      intro sym hsym
      exact p.symbol_orderly .plain (h.1 sym hsym)
    apply hmembers.bind
    intro memberTexts _
    apply (p.condition_orderly h.2).bind
    intro text _
    cases morePrompts with
    | false => exact Run.orderly_pure _
    | true =>
      apply (Run.orderly_log _).bind
      intro _ _
      exact Run.orderly_pure _
  | select selected name visible =>
    apply (p.condition_orderly h.1).bind
    intro selectedText _
    apply (p.condition_orderly h.2).bind
    intro text _
    exact Run.orderly_pure _

/-- The line of a record is found or refused with an error, if the table has what it refers to. -/
theorem line_orderly (p : Printer) {r : Record} (h : r.ResolvesIn p.model) :
    (r.line p).Orderly := by
  apply (text_orderly p h).bind
  intro text _
  exact Run.orderly_pure _

end Record

/-! ## Records -/

namespace Constraint

variable {m : Model} {s : Symbol}

/-- The properties of a kind are among the properties. -/
theorem mem_properties_of_mem_propertiesOf {kind : PropertyKind} {p : Property}
    (h : p ∈ s.propertiesOf kind) : p ∈ s.properties :=
  (List.mem_filter.mp h).1

/-- A declaration refers to what the table of a sound model has. -/
theorem declarations_resolve (h : m.IsSound) (hs : s ∈ m.symbols) :
    ∀ step ∈ declarations s, step.Admits (Record.ResolvesIn m) := by
  unfold declarations
  rcases s.named with _ | name
  · exact nofun
  · cases s.kind.constraintName with
    | none => exact List.forall_mem_singleton.mpr trivial
    | some type =>
      simp only [List.cons_append, List.forall_mem_cons, List.forall_mem_append]
      refine ⟨trivial, ?_, ?_⟩
      · simp only [List.mem_map]
        rintro step ⟨p, hp, rfl⟩
        exact h.visible s hs p (mem_properties_of_mem_propertiesOf hp)
      · simp only [List.mem_filterMap, Option.map_eq_some_iff]
        rintro step ⟨p, hp, value, hvalue, rfl⟩
        have hmem := mem_properties_of_mem_propertiesOf hp
        exact ⟨h.value s hs p hmem value hvalue, h.visible s hs p hmem⟩

/-- The rule of a choice refers to what the table of a sound model has, or it is an error. -/
theorem choiceRule_resolves (h : m.IsSound) (id : SymbolId) (hs : s ∈ m.symbols) :
    (choiceRule m id s).Admits (Record.ResolvesIn m) := by
  unfold choiceRule
  split
  · refine ⟨h.choiceMembers hs, ?_⟩
    rcases hp : s.prompts.head? with _ | p
    · exact nofun
    · have hmem := mem_properties_of_mem_propertiesOf (List.mem_of_head? hp)
      exact h.visible s hs p hmem
  · exact ⟨_, rfl⟩

/-- The dependencies of a symbol refer to what the table of a sound model has. -/
theorem dependencies_resolve (h : m.IsSound) (settings : Settings) (name : String)
    (hs : s ∈ m.symbols) :
    ∀ step ∈ dependencies settings name s, step.Admits (Record.ResolvesIn m) := by
  unfold dependencies
  simp only [List.forall_mem_append]
  refine ⟨⟨?_, ?_⟩, ?_⟩
  · cases he : s.dirDep with
    | none => exact nofun
    | some e =>
      rw [List.forall_mem_singleton]
      intro e' he'
      exact h.dirDep s hs e' (he.trans he')
  · split
    · simp only [reverseRules, List.forall_mem_append, List.mem_map]
      constructor
      · rintro step ⟨p, hp, rfl⟩
        have hmem := mem_properties_of_mem_propertiesOf hp
        exact ⟨h.value s hs p hmem, h.visible s hs p hmem⟩
      · cases he : s.revDep with
        | none => exact nofun
        | some e =>
          rw [List.forall_mem_singleton]
          intro e' he'
          exact h.revDep s hs e' (he.trans he')
    · exact nofun
  · split
    · exact List.forall_mem_singleton.mpr nofun
    · exact nofun

/-- The rules of a symbol refer to what the table of a sound model has, or they stop with an error.
-/
theorem rules_resolve (h : m.IsSound) (settings : Settings) (id : SymbolId)
    (hs : s ∈ m.symbols) :
    ∀ step ∈ rules m settings id s, step.Admits (Record.ResolvesIn m) := by
  unfold rules
  simp only [List.forall_mem_append]
  constructor
  · split
    · exact List.forall_mem_singleton.mpr (choiceRule_resolves h id hs)
    · exact nofun
  · cases s.named with
    | none => exact nofun
    | some name =>
      simp only
      split
      · exact nofun
      · exact dependencies_resolve h settings name hs

/-- The encoding of a sound model refers to what its table has, or it stops with an error. -/
theorem encoding_resolves (h : m.IsSound) (settings : Settings) :
    ∀ step ∈ encoding m settings, step.Admits (Record.ResolvesIn m) := by
  unfold encoding
  simp only [List.cons_append, List.forall_mem_cons, List.forall_mem_append,
    List.mem_flatMap]
  refine ⟨trivial, ?_, ?_⟩
  · rintro step ⟨⟨id, s⟩, hs, hstep⟩
    exact declarations_resolve h (Model.mem_symbols_of_mem_entries hs) step hstep
  · rintro step ⟨⟨id, s⟩, hs, hstep⟩
    exact rules_resolve h settings id (Model.mem_symbols_of_mem_entries hs) step hstep

/-- The encoding of a sound model. -/
theorem extract_orderly (h : m.IsSound) (settings : Settings) : (extract m settings).Orderly :=
  Step.runAll_orderly (fun _ => Record.line_orderly ⟨m, settings.namePrefix, .logic⟩)
    (encoding_resolves h settings)

end Constraint

namespace Listing

variable {m : Model}

/-- The conditions listed for a name refer to what the table of a sound model has. -/
theorem deps_resolve (h : m.IsSound) (settings : Settings) (name : String) :
    ∀ step ∈ deps m settings name, step.Admits (Record.ResolvesIn m) := by
  unfold deps
  rcases hlookup : m.lookup name with _ | entry
  · exact List.forall_mem_singleton.mpr ⟨_, rfl⟩
  · obtain ⟨id, s⟩ := entry
    have hs := Model.mem_symbols_of_lookup hlookup
    refine List.forall_mem_cons.mpr ⟨h.dirDep s hs, ?_⟩
    split
    · exact List.forall_mem_singleton.mpr (h.revDep s hs)
    · exact nofun

/-- The dependencies of a symbol of a sound model. -/
theorem writeDeps_orderly (h : m.IsSound) (settings : Settings) (name : String) :
    (writeDeps m settings name).Orderly :=
  Step.runAll_orderly (fun _ => Record.line_orderly ⟨m, settings.namePrefix, .boolean⟩)
    (deps_resolve h settings name)

/-- Names need nothing to be written. -/
theorem writeNames_orderly {names : List (Step String)}
    (h : ∀ step ∈ names, step.Admits fun _ => True) : (writeNames names).Orderly :=
  Step.runAll_orderly (fun _ _ => Run.orderly_pure _) h

/-- The symbols of a sound model's menus are in its table. -/
theorem menuSymbols_resolve (h : m.IsSound) :
    ∀ step ∈ menuSymbols m, step.Admits fun _ => True := by
  unfold menuSymbols
  simp only [List.mem_flatMap]
  rintro step ⟨menu, hmenu, hstep⟩
  rcases hid : menu.symbol with _ | id
  · simp only [hid] at hstep
    cases hstep
  · obtain ⟨s, hs⟩ := h.menuSymbol menu hmenu id hid
    simp only [hid, hs] at hstep
    rcases hname : s.named with _ | name
    · simp only [hname] at hstep
      cases hstep
    · simp only [hname, List.mem_singleton] at hstep
      rw [hstep]
      trivial

end Listing

end Kconfig
