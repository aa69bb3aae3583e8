import Kconfig.Constraint.Encoding
import Kconfig.Proofs.Condition.Locality
import Kconfig.Proofs.Model.ChoiceShape

/-!
# The encoding and where choices have their members

The encoding of a model is the same whether the members of its choices are in menus or in
properties (`Constraint.extract_eq_of_reshaped`). Two things make it so. The records are made of
what the two models have in common: of a choice the encoding asks for its members, and not for the
properties that may hold them. The texts depend on a model only by what references stand for.

The runs are the same, so what is said about them is too. Nothing is asked of the models beyond the
shapes: they may be unsound, a choice may have many menus or none, and the properties that the
first model has of choices are arbitrary.
-/

namespace Kconfig

/-! ## Texts -/

/-- The line of a record depends on a model by what references stand for. -/
theorem Record.line_withModel {p : Printer} {m' : Model} (h : m'.classify = p.model.classify) :
    Record.line (p.withModel m') = Record.line p := by
  have hprefix : (p.withModel m').namePrefix = p.namePrefix := rfl
  have hsymbol : (p.withModel m').symbol .plain = p.symbol .plain :=
    funext fun sym => Printer.symbol_withModel (congrFun h sym) .plain
  have hrender : (p.withModel m').render none = p.render none :=
    funext fun e => Printer.render_withModel (fun sym _ => congrFun h sym) none
  have hcondition : (p.withModel m').condition = p.condition :=
    funext fun e => Printer.condition_withModel fun _ _ sym _ => congrFun h sym
  funext r
  have htext : r.text (p.withModel m') = r.text p := by
    cases r <;> simp only [text, hprefix, hsymbol, hrender, hcondition]
  unfold line
  rw [htext]

/-! ## Plans -/

namespace Constraint

variable {m m' : Model} {s s' : Symbol}

/-- Members are not in the declarations of a symbol. -/
theorem declarations_eq_of_agrees (h : s.AgreesOutsideChoice s') :
    declarations s' = declarations s := by
  unfold declarations
  rw [h.named, h.kind, h.prompts, h.defaults]

/-- Members are not in the dependencies of a symbol. -/
theorem dependencies_eq_of_agrees (h : s.AgreesOutsideChoice s') (settings : Settings)
    (name : String) : dependencies settings name s' = dependencies settings name s := by
  unfold dependencies reverseRules
  rw [h.kind, h.dirDep, h.revDep, h.selects]

/-- Of a choice, its record has the members and what is outside the `choice` properties. -/
theorem choiceRule_eq_of_agrees (h : s.AgreesOutsideChoice s')
    (hoptional : m'.capabilities.optionalChoices = m.capabilities.optionalChoices) {id : SymbolId}
    (hmembers : m'.choiceMembers id s' = m.choiceMembers id s) :
    choiceRule m' id s' = choiceRule m id s := by
  unfold choiceRule Model.isOptionalChoice
  rw [h.kind, h.flags, h.prompts, hoptional, hmembers]

/-- Symbols that agree but for their members have the same rules, if a choice among them has the
same members in its model. -/
theorem rules_eq_of_agrees (h : s.AgreesOutsideChoice s')
    (hoptional : m'.capabilities.optionalChoices = m.capabilities.optionalChoices) {id : SymbolId}
    (hmembers : s.isChoice → m'.choiceMembers id s' = m.choiceMembers id s)
    (settings : Settings) : rules m' settings id s' = rules m settings id s := by
  have hchoice : (if s'.isChoice then [choiceRule m' id s'] else []) =
      if s.isChoice then [choiceRule m id s] else [] := by
    rw [h.isChoice]
    by_cases hs : s.isChoice
    · rw [if_pos hs, if_pos hs, choiceRule_eq_of_agrees h hoptional (hmembers hs)]
    · rw [if_neg hs, if_neg hs]
  unfold rules
  rw [hchoice, h.named, h.kind]
  rcases s.named with _ | name
  · rfl
  · show _ ++ (if s.kind = .unknown then [] else dependencies settings name s') = _
    rw [dependencies_eq_of_agrees h]

end Constraint

/-! ## Encodings -/

/-- What becomes of an entry when the members of choices are put into properties: every choice
lists in a property the members that it has in menus. -/
def Model.MovesMembers (m : Model) (id : SymbolId) (s s' : Symbol) : Prop :=
  if s.isChoice then s.ListsMembers (m.choiceMembers id s) s' else s' = s

/-- Putting the members of a choice into a property leaves everything else of the symbol. -/
theorem Model.MovesMembers.agrees {m : Model} {id : SymbolId} {s s' : Symbol}
    (h : m.MovesMembers id s s') : s.AgreesOutsideChoice s' := by
  unfold MovesMembers at h
  split at h
  · exact h.agrees
  · rw [h]
    exact .refl s

namespace Constraint

variable {m m' : Model}

/-- Where the members of choices are makes no difference to the encoding. -/
theorem extract_eq_of_reshaped (h : m.Reshaped m.MovesMembers m')
    (hoptional : m'.capabilities.optionalChoices = m.capabilities.optionalChoices) :
    (∀ id s s', m.symbol? id = some s → m'.symbol? id = some s' → s.isChoice →
        m'.choiceMembers id s' = m.choiceMembers id s) ∧
      ∀ settings, extract m' settings = extract m settings := by
  have hagrees : ∀ id s s', m.MovesMembers id s s' → s.AgreesOutsideChoice s' :=
    fun _ _ _ => Model.MovesMembers.agrees
  have hmembers : ∀ id s s', m.symbol? id = some s → m'.symbol? id = some s' → s.isChoice →
      m'.choiceMembers id s' = m.choiceMembers id s := by
    intro id s s' hs hs' hchoice
    have hmoves := h.symbol id s s' hs hs'
    rw [Model.MovesMembers, if_pos hchoice] at hmoves
    exact h.choiceMembers_eq hmoves
  refine ⟨hmembers, ?_⟩
  intro settings
  -- only the rule of a choice asks for members, and it gets the same ones
  have hencoding : encoding m' settings = encoding m settings := by
    unfold encoding
    rw [h.size]
    refine congrArg₂ (· ++ ·) (congrArg (List.cons _) ?_) ?_
    · apply Model.flatMap_entries_congr h.size
      intro id s s' hs hs'
      exact declarations_eq_of_agrees (hagrees id s s' (h.symbol id s s' hs hs'))
    · apply Model.flatMap_entries_congr h.size
      intro id s s' hs hs'
      have hs'agrees := hagrees id s s' (h.symbol id s s' hs hs')
      exact rules_eq_of_agrees hs'agrees hoptional (hmembers id s s' hs hs') settings
  have hline : Record.line ⟨m', settings.namePrefix, .logic⟩ =
      Record.line ⟨m, settings.namePrefix, .logic⟩ :=
    Record.line_withModel (p := ⟨m, settings.namePrefix, .logic⟩) (h.classify_eq hagrees)
  unfold extract
  rw [hencoding, hline]

/-- The model that lists the members of its choices in properties. -/
def propertyChoices : Model :=
  { Model.menuChoices with
    capabilities := { choiceMembers := .property }
    symbols := #[
      { Model.declaredTwice with
        properties := [
          { kind := .prompt, text := some "Pick one" },
          { kind := .choice, text := some "Members",
            expr := some (.listCons (.entry ⟨1⟩) (.listLast (.entry ⟨2⟩))) },
          { kind := .symbol, visible := some (.compare .less (.entry ⟨1⟩) (.entry ⟨2⟩)) }] },
      { name := some "A", kind := .bool }, { name := some "B", kind := .bool },
      { Model.undeclared with properties := [] }] }

/-- The choices of `menuChoices` may list their members in properties, and `extract` does the same.
-/
theorem menuChoices_extract_eq :
    Model.menuChoices.Reshaped Model.menuChoices.MovesMembers propertyChoices ∧
      propertyChoices.capabilities.optionalChoices =
        Model.menuChoices.capabilities.optionalChoices ∧
      ∀ settings, extract propertyChoices settings = extract Model.menuChoices settings := by
  have hfirst : Model.menuChoices.MovesMembers ⟨0⟩ Model.declaredTwice
      propertyChoices.symbols[0] := by
    show Model.declaredTwice.ListsMembers _ _
    rw [Model.choiceMembers_declaredTwice]
    refine ⟨[{ kind := .prompt, text := some "Pick one" }], _, [_], rfl, rfl, nofun, ?_⟩
    intro _
    exact ⟨_, rfl, rfl, rfl⟩
  have hlast : Model.menuChoices.MovesMembers ⟨3⟩ Model.undeclared
      propertyChoices.symbols[3] := by
    show Model.undeclared.ListsMembers _ _
    rw [Model.choiceMembers_undeclared]
    refine ⟨[], [], [], rfl, rfl, fun _ => rfl, ?_⟩
    intro hmembers
    exact (hmembers rfl).elim
  have hreshaped : Model.menuChoices.Reshaped Model.menuChoices.MovesMembers propertyChoices := by
    refine Model.Reshaped.of_entries rfl rfl rfl ?_
    exact .cons hfirst (.cons rfl (.cons rfl (.cons hlast .nil)))
  exact ⟨hreshaped, rfl, (extract_eq_of_reshaped hreshaped rfl).2⟩

end Constraint

end Kconfig
