import Kconfig.Proofs.Constraint.ChoiceShape
import Kconfig.Proofs.Constraint.Lines

/-!
# The lines of one symbol and the other symbols

What is written for a symbol depends on that symbol, and of the others only on their names and
kinds. So where two models differ in one symbol, and not in what it is called and typed, the lines
of all others are the same, in the same order (`Constraint.attributedLines_filter_eq`). The flags,
properties and dependencies of the one symbol may differ in any way; it may be a choice in one
model only, and others may refer to it, in conditions, as a member or as what they select.
-/

namespace Kconfig

/-! ## Models that differ in one symbol -/

/-- Whether two models are the same but for one symbol, of which the name and the kind are the same
as well. -/
structure Model.AgreesButAt (k : SymbolId) (m m' : Model) : Prop where
  root : m'.root = m.root
  capabilities : m'.capabilities = m.capabilities
  size : m'.symbols.size = m.symbols.size
  name : ∀ id s s', m.symbol? id = some s → m'.symbol? id = some s' → s'.name = s.name
  kind : ∀ id s s', m.symbol? id = some s → m'.symbol? id = some s' → s'.kind = s.kind
  symbol : ∀ id, id ≠ k → m'.symbol? id = m.symbol? id

/-- The model with another symbol at an id. -/
def Model.withSymbolAt (m : Model) (k : SymbolId) (s : Symbol) : Model :=
  { m with
    symbols := m.symbols.setIfInBounds k.position s
    symbols_le := by
      rw [Array.size_setIfInBounds]
      exact m.symbols_le }

namespace Model.AgreesButAt

variable {k : SymbolId} {m m' : Model}

/-- A symbol of the same name and kind in place of another. -/
theorem withSymbolAt {s : Symbol} (hk : m.symbol? k = some s) {s' : Symbol}
    (hname : s'.name = s.name) (hkind : s'.kind = s.kind) :
    m.AgreesButAt k (m.withSymbolAt k s') := by
  have hat : (m.withSymbolAt k s').symbol? k = some s' := by
    have hbound : k.position < m.symbols.size := (Array.getElem?_eq_some_iff.mp hk).1
    show (m.symbols.setIfInBounds k.position s')[k.position]? = some s'
    rw [Array.getElem?_setIfInBounds_self, if_pos hbound]
  have hother : ∀ id, id ≠ k → (m.withSymbolAt k s').symbol? id = m.symbol? id := by
    intro id hid
    have hposition : k.position ≠ id.position := by
      intro heq
      rw [← SymbolId.ofPosition_position id, ← heq, SymbolId.ofPosition_position] at hid
      exact hid rfl
    exact Array.getElem?_setIfInBounds_ne hposition
  -- at `k` the two are `s` and `s'`, elsewhere they are the same
  have hcases : ∀ id t t', m.symbol? id = some t → (m.withSymbolAt k s').symbol? id = some t' →
      t = s ∧ t' = s' ∨ t' = t := by
    intro id t t' ht ht'
    by_cases hid : id = k
    · rw [hid] at ht ht'
      exact .inl ⟨Option.some.inj (ht.symm.trans hk), Option.some.inj (ht'.symm.trans hat)⟩
    · exact .inr (Option.some.inj (ht'.symm.trans ((hother id hid).trans ht)))
  refine ⟨rfl, rfl, Array.size_setIfInBounds, ?_, ?_, hother⟩
  · intro id t t' ht ht'
    rcases hcases id t t' ht ht' with ⟨rfl, rfl⟩ | rfl
    · exact hname
    · rfl
  · intro id t t' ht ht'
    rcases hcases id t t' ht ht' with ⟨rfl, rfl⟩ | rfl
    · exact hkind
    · rfl

/-- A reference stands for the same in both, also one to the symbol that differs. -/
theorem classify_eq (h : m.AgreesButAt k m') : m'.classify = m.classify := by
  apply classify_eq_of_class h.size
  intro id s s' hs hs'
  unfold Symbol.class Symbol.named
  rw [h.name id s s' hs hs', h.kind id s s' hs hs']

/-- A choice that is the same in both has the same members. -/
theorem choiceMembers_eq (h : m.AgreesButAt k m') (id : SymbolId) (s : Symbol) :
    m'.choiceMembers id s = m.choiceMembers id s := by
  unfold choiceMembers firstMenu menus
  rw [h.capabilities, h.root]

/-- What is made of each entry by itself is the same, where it is not of the symbol that
differs. -/
theorem filter_flatMap_entries {α : Type} (h : m.AgreesButAt k m')
    {f f' : SymbolId × Symbol → List α} (hf : ∀ x, f' x = f x) :
    (m'.entries.flatMap fun x => (f' x).map (x.1, ·)).filter (fun x => x.1 ≠ k) =
      (m.entries.flatMap fun x => (f x).map (x.1, ·)).filter fun x => x.1 ≠ k := by
  rw [List.filter_flatMap, List.filter_flatMap]
  apply flatMap_entries_congr h.size
  intro id s s' hs hs'
  by_cases hid : id = k
  · have hnone : ∀ as : List α, (as.map (id, ·)).filter (fun x => x.1 ≠ k) = [] := by
      intro as
      rw [List.filter_eq_nil_iff]
      simp [hid]
    rw [hnone, hnone]
  · have hsame : s' = s := Option.some.inj (hs'.symm.trans ((h.symbol id hid).trans hs))
    rw [hsame, hf]

end Model.AgreesButAt

/-! ## Lines -/

namespace Constraint

variable {k : SymbolId} {m m' : Model} {settings : Settings}

/-- The same symbol has the same rules in both. -/
theorem rules_eq_of_agreesButAt (h : m.AgreesButAt k m') (settings : Settings) (id : SymbolId)
    (s : Symbol) : rules m' settings id s = rules m settings id s := by
  have hoptional : m'.capabilities.optionalChoices = m.capabilities.optionalChoices := by
    rw [h.capabilities]
  exact rules_eq_of_agrees (.refl s) hoptional (fun _ => h.choiceMembers_eq id s) settings

/-- A record that resolves in both has the same line. -/
theorem lineText_eq_of_agreesButAt (h : m.AgreesButAt k m') {r : Record}
    (hresolves : r.ResolvesIn m) (hresolves' : r.ResolvesIn m') :
    r.lineText (linePrinter m' settings) = r.lineText (linePrinter m settings) := by
  have hline : Record.line (linePrinter m' settings) = Record.line (linePrinter m settings) :=
    Record.line_withModel (p := linePrinter m settings) h.classify_eq
  have hending : (r.line (linePrinter m settings)).ending = .ok (r.lineText _) :=
    Record.ending_line hresolves
  have hending' : (r.line (linePrinter m' settings)).ending = .ok (r.lineText _) :=
    Record.ending_line hresolves'
  rw [hline] at hending'
  exact Except.ok.inj (hending'.symm.trans hending)

/-- The records of all symbols but one. -/
theorem records_filter_eq (h : m.AgreesButAt k m') (hsound : m.IsSound) (hsound' : m'.IsSound)
    (hending : (extract m settings).ending = .ok ())
    (hending' : (extract m' settings).ending = .ok ()) :
    (records m' settings).filter (fun x => x.1 ≠ k) =
      (records m settings).filter fun x => x.1 ≠ k := by
  rw [records_of_ok hsound hending, records_of_ok hsound' hending', List.filter_append,
    List.filter_append]
  congr 1
  · exact h.filter_flatMap_entries fun _ => rfl
  · apply h.filter_flatMap_entries
    intro x
    rw [rules_eq_of_agreesButAt h]

/-- Of two checked models that differ in one symbol, the lines of all other symbols are the same,
if both encodings come to their ends. -/
theorem attributedLines_filter_eq (h : m.AgreesButAt k m') (hcheck : m.validate = .ok ())
    (hcheck' : m'.validate = .ok ()) (hending : (extract m settings).ending = .ok ())
    (hending' : (extract m' settings).ending = .ok ()) :
    (extract m settings).writes = (attributedLines m settings).map Prod.snd ∧
      (extract m' settings).writes = (attributedLines m' settings).map Prod.snd ∧
        (attributedLines m' settings).filter (fun x => x.1 ≠ k) =
          (attributedLines m settings).filter fun x => x.1 ≠ k := by
  have hsound := Model.validate_eq_ok_iff.mp hcheck
  have hsound' := Model.validate_eq_ok_iff.mp hcheck'
  refine ⟨writes_eq_attributedLines hsound settings, writes_eq_attributedLines hsound' settings, ?_⟩
  unfold attributedLines
  rw [List.filter_map, List.filter_map]
  have hrecords := records_filter_eq h hsound hsound' hending hending'
  show ((records m' settings).filter fun x => x.1 ≠ k).map _ =
    ((records m settings).filter fun x => x.1 ≠ k).map _
  rw [hrecords]
  apply List.map_congr_left
  intro x hx
  have hmem : x ∈ records m settings := List.mem_of_mem_filter hx
  rw [← hrecords] at hx
  have hmem' : x ∈ records m' settings := List.mem_of_mem_filter hx
  rw [lineText_eq_of_agreesButAt h (records_resolve hsound settings x hmem)
    (records_resolve hsound' settings x hmem')]

/-- A model in which a choice, a condition and a select refer to the second symbol. -/
def sharedOption : Model where
  symbols := #[
    { kind := .bool, flags := .choice,
      properties := [
        { kind := .choice, expr := some (.listCons (.entry ⟨1⟩) (.listLast (.entry ⟨2⟩))) }] },
    { name := some "A", kind := .bool },
    { name := some "B", kind := .bool, dirDep := some (.not (.symbol (.entry ⟨1⟩))),
      properties := [{ kind := .select, expr := some (.symbol (.entry ⟨1⟩)) }] },
    { name := some "N", kind := .int }]

/-- The second symbol as a choice with a prompt and a dependency. -/
def busyOption : Symbol where
  name := some "A"
  kind := .bool
  flags := .choice
  properties := [{ kind := .prompt, visible := some (.symbol (.entry ⟨2⟩)) }]
  dirDep := some (.symbol (.entry ⟨2⟩))

/-- Changing the second symbol of `sharedOption` changes the output, and leaves the lines of the
other symbols. -/
theorem sharedOption_attributedLines :
    sharedOption.AgreesButAt ⟨1⟩ (sharedOption.withSymbolAt ⟨1⟩ busyOption) ∧
      (extract sharedOption {}).writes ≠
        (extract (sharedOption.withSymbolAt ⟨1⟩ busyOption) {}).writes ∧
      (attributedLines (sharedOption.withSymbolAt ⟨1⟩ busyOption) {}).filter (fun x => x.1 ≠ ⟨1⟩) =
        [(⟨2⟩, "config CONFIG_B bool\n"), (⟨3⟩, "config CONFIG_N number\n"),
          (⟨0⟩, "bool_choice CONFIG_A CONFIG_B|(1)\n"), (⟨2⟩, "dep CONFIG_B ( not CONFIG_A)\n"),
          (⟨2⟩, "select CONFIG_A CONFIG_B (1)\n"), (⟨3⟩, "dep CONFIG_N (1)\n")] := by
  have hsymbol : sharedOption.symbol? ⟨1⟩ = some { name := some "A", kind := .bool } := rfl
  have hagrees : sharedOption.AgreesButAt ⟨1⟩ (sharedOption.withSymbolAt ⟨1⟩ busyOption) :=
    .withSymbolAt hsymbol rfl rfl
  have hcheck : sharedOption.validate = .ok () := by
    rw [Model.validate, Model.menus, Menu.descendants_eq_preorder]
    rfl
  have hcheck' : (sharedOption.withSymbolAt ⟨1⟩ busyOption).validate = .ok () := by
    rw [Model.validate, Model.menus, Menu.descendants_eq_preorder]
    rfl
  have hending : (extract sharedOption {}).ending = .ok () := rfl
  have hending' : (extract (sharedOption.withSymbolAt ⟨1⟩ busyOption) {}).ending = .ok () := rfl
  obtain ⟨hwrites, hwrites', hlines⟩ :=
    attributedLines_filter_eq hagrees hcheck hcheck' hending hending'
  refine ⟨hagrees, ?_, hlines⟩
  rw [hwrites, hwrites']
  intro heq
  exact absurd (congrArg List.length heq) (by decide)

end Constraint

end Kconfig
