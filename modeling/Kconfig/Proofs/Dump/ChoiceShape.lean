import Kconfig.Proofs.Dump.MemberChain
import Kconfig.Proofs.Dump.Soundness

/-!
# The dump and where choices have their members

Where choices list their members in menus, the dump shows the list as a property that no symbol has.
It is written as the property would be that holds the chain of the members and applies where the
choice is declared (`Model.membersProperty`). So the dump of a sound model is the same text, with
the same ending, as that of the model whose choices have this property as their last
(`Dump.dump_eq_of_reshaped`). The messages may differ, since they say where an expression stood, and
of the two properties that is said in other words.

The two are planned differently. The list is one piece, which begins with the tag, and where its
text could not be found the tag would not be written either; in a sound model it can. Its condition
could be one that cannot be shown, and that would be told in other words, too. But the condition was
that of a property before: if it cannot be shown, the dump has ended there.
-/

namespace Kconfig

/-! ## The property -/

namespace Model

variable {m : Model}

/-- The property that would hold the members of a choice. It applies where the last declaration
does. -/
def membersProperty (m : Model) (id : SymbolId) (s : Symbol) : Property where
  kind := .choice
  expr := Expr.chain? (m.choiceMembers id s)
  visible := (s.propertiesOf .symbol).getLast?.bind Property.visible

/-- Whether an entry is a choice that some menu is the place of. The root is the place of none. -/
def IsShownChoice (m : Model) (id : SymbolId) (s : Symbol) : Prop :=
  s.isChoice ∧ ∃ menu ∈ m.menus, menu.symbol = some id

/-- What becomes of an entry when the choices that the dump shows are given the properties that it
shows. -/
def AddsMembers (m : Model) (id : SymbolId) (s s' : Symbol) : Prop :=
  (m.IsShownChoice id s → s' = s.withProperty (m.membersProperty id s)) ∧
    (¬ m.IsShownChoice id s → s' = s)

/-- Adding the members of a choice leaves everything else of the symbol. -/
theorem AddsMembers.agrees {id : SymbolId} {s s' : Symbol} (h : m.AddsMembers id s s') :
    s.AgreesOutsideChoice s' := by
  by_cases hshown : m.IsShownChoice id s
  · rw [h.1 hshown]
    exact .withProperty rfl
  · rw [h.2 hshown]
    exact .refl s

end Model

namespace Dump

open Step (runAll runAll_append)

variable {m m' : Model}

/-! ## Texts -/

/-- An expression that can be shown somewhere is the same text everywhere. -/
theorem exprText_alike {context : String} {e : Expr} {text : String}
    (h : (exprText m context e).ending = .ok text) (c c' : String) :
    (exprText m c e).Alike (exprText m c' e) := by
  obtain ⟨texts, htexts, -⟩ := Run.exists_of_bind_ok h
  have htokens :
      ((verbatim e).mapM (tokenText m c)).Alike ((verbatim e).mapM (tokenText m c')) := by
    apply Run.Alike.mapM
    intro t ht
    obtain ⟨s, hs⟩ := Run.exists_of_mapM_ok htexts t ht
    cases t with
    | text | symbol => exact .refl _
    | ordering op => exact ⟨rfl, rfl⟩
    | unknown => cases hs
  exact htokens.bind_left _

/-! ## Pieces -/

/-- What a reference is shown as does not depend on `choice` properties. -/
theorem symbolText_eq_of_reshaped {R : SymbolId → Symbol → Symbol → Prop} (h : m.Reshaped R m')
    (hR : ∀ id s s', R id s s' → s.AgreesOutsideChoice s') : symbolText m' = symbolText m :=
  funext fun _ => symbolText_eq_of_agreesAt fun id _ => h.agreesAt hR id

/-- Pieces are rendered alike where symbols have the same text. -/
theorem render_eq_of_symbolText (h : symbolText m' = symbolText m) :
    Piece.render m' = Piece.render m := by
  have htokens : tokensText m' = tokensText m :=
    funext₂ fun context _ => tokensText_congr (fun sym _ => congrFun h sym) context
  funext piece
  cases piece <;> simp only [Piece.render, exprText, htokens]

/-- The context of a condition that can be shown does not matter. -/
theorem runAll_visible_alike {e : Expr} {context line : String}
    (h : (Piece.render m (.visible context e)).ending = .ok line) (c c' : String) :
    (runAll (Piece.render m) [.write (.visible c e)]).Alike
      (runAll (Piece.render m) [.write (.visible c' e)]) := by
  obtain ⟨text, htext, -⟩ := Run.exists_of_bind_ok h
  have hrender : (Piece.render m (.visible c e)).Alike (Piece.render m (.visible c' e)) :=
    (exprText_alike htext c c').bind_left _
  rw [Step.runAll_cons, Step.runAll_cons]
  exact (hrender.bind_left _).bind_left _

/-- The tag and the members of a property are written as the start of a list of members. -/
theorem runAll_members_alike {members : List SymbolRef} (h : ∀ sym ∈ members, m.Resolves sym)
    {e : Expr} (he : e.IsChainOf members) :
    (runAll (Piece.render m) [.write (.openProperty .choice), .write (.value "choice" e)]).Alike
      (runAll (Piece.render m) [.write (.members members)]) := by
  obtain ⟨text, htext⟩ : ∃ text, ∀ context, tokensText m context (chain members) = pure text :=
    ⟨_, tokensText_chain h⟩
  have hvalue : Piece.render m (.value "choice" e) = pure ("<expr>" ++ text ++ "</expr>") := by
    simp only [Piece.render, exprText, verbatim_of_isChainOf he, htext, pure_bind]
  have hmembers : Piece.render m (.members members) =
      pure ("<property type=\"choice\"><expr>" ++ text ++ "</expr>") := by
    simp only [Piece.render, htext, pure_bind]
  have hlines : "<property type=\"choice\"><expr>" ++ text ++ "</expr>" =
      "<property type=\"" ++ PropertyKind.choice.dumpName ++ "\">" ++
        ("<expr>" ++ text ++ "</expr>") := by
    simp [PropertyKind.dumpName, PropertyKind.label, ← String.append_assoc]
  simp only [Step.runAll_cons, Step.run, hvalue, hmembers, pure_bind]
  constructor
  · show String.join [_, _] = String.join [_]
    rw [hlines]
    simp [String.join]
  · rfl

/-! ## Symbols -/

/-- The property that holds the members is written as the list of them is, if its condition is
shown elsewhere. -/
theorem membersSteps_alike {id : SymbolId} {s : Symbol}
    (hresolve : ∀ sym ∈ m.choiceMembers id s, m.Resolves sym) (hmembers : m.choiceMembers id s ≠ [])
    (hvisible : ∀ e ∈ (m.membersProperty id s).visible,
      ∃ context line, (Piece.render m (.visible context e)).ending = .ok line) :
    (runAll (Piece.render m) (propertySteps (m.membersProperty id s))).Alike
      (runAll (Piece.render m) (membersSteps m id s)) := by
  obtain ⟨e, he⟩ := Expr.exists_isChainOf hmembers
  have hstart : optionalPiece (.value PropertyKind.choice.dumpName)
      (m.membersProperty id s).expr = [.write (.value "choice" e)] := by
    rw [Model.membersProperty, he.chain?_eq]
    rfl
  have hshown : (runAll (Piece.render m)
      (optionalPiece (.visible "choice") (m.membersProperty id s).visible)).Alike
        (runAll (Piece.render m)
          (optionalPiece (.visible "choice visibility") (m.membersProperty id s).visible)) := by
    rcases hcondition : (m.membersProperty id s).visible with _ | condition
    · exact .refl _
    · obtain ⟨context, line, hline⟩ := hvisible condition hcondition
      exact runAll_visible_alike hline _ _
  have hsteps : propertySteps (m.membersProperty id s) =
      [.write (.openProperty .choice), .write (.value "choice" e)] ++
        optionalPiece (.visible "choice") (m.membersProperty id s).visible ++
        [.write .closeProperty] := by
    unfold propertySteps
    rw [show (m.membersProperty id s).kind = .choice from rfl, hstart]
    rfl
  rw [hsteps, membersSteps, runAll_append, runAll_append, runAll_append, runAll_append]
  apply Run.Alike.bind_left
  apply (runAll_members_alike hresolve he).bind
  intro _ _
  exact hshown

/-- What the dump shows of a symbol before the members of a choice. -/
def symbolStart (id : SymbolId) (s : Symbol) : List (Step Piece) :=
  (if s.kind = .unknown then [.note (.untypedDumped id)] else []) ++
    [.write (.openSymbol s.kind s.flags id)] ++ optionalPiece .name s.name ++
    s.properties.flatMap propertySteps

/-- If the dump gets past the properties, it has shown the condition of each. -/
theorem exists_of_symbolStart_ok {id : SymbolId} {s : Symbol}
    (h : (runAll (Piece.render m) (symbolStart id s)).ending = .ok ()) :
    ∀ e ∈ (m.membersProperty id s).visible,
      ∃ context line, (Piece.render m (.visible context e)).ending = .ok line := by
  intro e he
  obtain ⟨p, hmem, hp⟩ := exists_of_lastDeclaration he
  have hpiece : .write (.visible p.kind.dumpName e) ∈ propertySteps p := by
    unfold propertySteps
    rw [hp]
    simp [optionalPiece]
  have hstep : .write (.visible p.kind.dumpName e) ∈ symbolStart id s :=
    List.mem_append_right _ (List.mem_flatMap_of_mem hmem hpiece)
  exact ⟨p.kind.dumpName, Step.exists_of_runAll_ok h hstep⟩

/-- A choice is shown with its members if they are in menus, and not at all if it has a type that
choices cannot have. -/
theorem symbolSteps_of_isChoice (m : Model) (id : SymbolId) {s : Symbol} (h : s.isChoice) :
    symbolSteps m id s =
      if s.kind.isBoolean then
        symbolStart id s ++
          (if m.capabilities.choiceMembers = .menu then membersSteps m id s else []) ++
          [.write .closeSymbol]
      else [.stop (.error (.invalidChoiceType id s.kind))] := by
  unfold symbolSteps symbolStart
  by_cases hkind : s.kind.isBoolean
  · simp [h, hkind]
  · simp [h, hkind]

/-- The start of a symbol with one more property ends with the steps of this property. -/
theorem symbolStart_withProperty (id : SymbolId) (s : Symbol) (p : Property) :
    symbolStart id (s.withProperty p) = symbolStart id s ++ propertySteps p := by
  unfold symbolStart Symbol.withProperty
  rw [List.flatMap_append, List.flatMap_singleton, ← List.append_assoc]

/-- A choice with the property that holds its members is written as the choice in menus. -/
theorem symbolSteps_alike (hmenu : m.capabilities.choiceMembers = .menu)
    (hproperty : m'.capabilities.choiceMembers = .property) {id : SymbolId} {s : Symbol}
    (hchoice : s.isChoice) (hresolve : ∀ sym ∈ m.choiceMembers id s, m.Resolves sym)
    (hmembers : m.choiceMembers id s ≠ []) :
    (runAll (Piece.render m)
        (symbolSteps m' id (s.withProperty (m.membersProperty id s)))).Alike
      (runAll (Piece.render m) (symbolSteps m id s)) := by
  have hchoice' : (s.withProperty (m.membersProperty id s)).isChoice := hchoice
  have hkind' : (s.withProperty (m.membersProperty id s)).kind = s.kind := rfl
  rw [symbolSteps_of_isChoice m id hchoice, symbolSteps_of_isChoice m' id hchoice', hkind']
  by_cases hkind : s.kind.isBoolean
  · rw [if_pos hkind, if_pos hkind, symbolStart_withProperty, hmenu, hproperty, if_pos rfl,
      if_neg nofun, List.append_nil]
    simp only [runAll_append, bind_assoc]
    apply Run.Alike.bind_right
    intro _ hstart
    apply Run.Alike.bind_left
    exact membersSteps_alike hresolve hmembers (exists_of_symbolStart_ok hstart)
  · rw [if_neg hkind, if_neg hkind]
    exact .refl _

/-- The capabilities make a difference to choices only. -/
theorem symbolSteps_of_not_isChoice (m m' : Model) (id : SymbolId) {s : Symbol}
    (h : ¬ s.isChoice) : symbolSteps m' id s = symbolSteps m id s := by
  unfold symbolSteps
  simp [h]

/-! ## Dumps -/

/-- A menu is shown alike where the choices that are shown list their members. -/
theorem menuSteps_alike (hsound : m.IsSound) (h : m.Reshaped m.AddsMembers m')
    (hmembers : ∀ id s, m.symbol? id = some s → m.IsShownChoice id s → m.choiceMembers id s ≠ [])
    {menu : Menu} (hmenu : menu ∈ m.menus) :
    (runAll (Piece.render m) (menuSteps m' menu)).Alike
      (runAll (Piece.render m) (menuSteps m menu)) := by
  unfold menuSteps
  simp only [runAll_append, bind_assoc]
  apply Run.Alike.bind_right
  intro _ _
  apply Run.Alike.bind_left
  rcases hid : menu.symbol with _ | id
  · exact .refl _
  · obtain ⟨s, hs⟩ := hsound.menuSymbol menu hmenu id hid
    rcases h.symbol?_cases id with ⟨hnone, -⟩ | ⟨s₁, s', hs₁, hs', hadds⟩
    · rw [hs] at hnone
      cases hnone
    · obtain rfl := Option.some.inj (hs.symm.trans hs₁)
      simp only [hs, hs']
      by_cases hchoice : s.isChoice
      · have hshown : m.IsShownChoice id s := ⟨hchoice, menu, hmenu, hid⟩
        rw [hadds.1 hshown]
        exact symbolSteps_alike h.fromMenus h.toProperties hchoice
          (hsound.choiceMembers (Model.mem_symbols_of_symbol? hs)) (hmembers id s hs hshown)
      · rw [hadds.2 (mt And.left hchoice), symbolSteps_of_not_isChoice m m' id hchoice]
        exact .refl _

/-- The dump of a checked model with choices in menus is the text of the dump, with its ending,
where the choices that it shows have their members in properties instead. -/
theorem dump_eq_of_reshaped (hcheck : m.validate = .ok ()) (h : m.Reshaped m.AddsMembers m')
    (hmembers : ∀ id s, m.symbol? id = some s → m.IsShownChoice id s →
      m.choiceMembers id s ≠ []) :
    (dump m').output = (dump m).output ∧ (dump m').ending = (dump m).ending := by
  have hsound : m.IsSound := Model.validate_eq_ok_iff.mp hcheck
  have hagrees : ∀ id s s', m.AddsMembers id s s' → s.AgreesOutsideChoice s' :=
    fun _ _ _ => Model.AddsMembers.agrees
  have htext : Piece.render m' = Piece.render m :=
    render_eq_of_symbolText (symbolText_eq_of_reshaped h hagrees)
  have hevents : ∀ event ∈ m.root.walk.events,
      (runAll (Piece.render m) (eventSteps m' event)).Alike
        (runAll (Piece.render m) (eventSteps m event)) := by
    intro event hevent
    cases event with
    | visit menu => exact menuSteps_alike hsound h hmembers (mem_menus_of_visit hevent)
    | descend | ascend => exact .refl _
  have halike : (dump m').Alike (dump m) := by
    unfold dump steps
    rw [htext, h.root, Step.runAll_cons, Step.runAll_cons, Step.runAll_cons, Step.runAll_cons]
    apply Run.Alike.bind_right
    intro _ _
    apply Run.Alike.bind_right
    intro _ _
    exact Step.runAll_flatMap_alike hevents
  exact ⟨halike.output, halike.ending⟩

/-- The model that has the members of the choice that is shown in a property. -/
def membersAdded : Model :=
  { Model.menuChoices with
    capabilities := { choiceMembers := .property, optionalChoices := false }
    symbols := #[
      Model.declaredTwice.withProperty
        { kind := .choice
          expr := some (.listCons (.entry ⟨1⟩) (.listLast (.entry ⟨2⟩)))
          visible := some (.compare .less (.entry ⟨1⟩) (.entry ⟨2⟩)) },
      { name := some "A", kind := .bool }, { name := some "B", kind := .bool },
      Model.undeclared] }

/-- Under the first three ids of `menuChoices` choices are shown, and under no other. -/
theorem isShownChoice_menuChoices_iff {id : SymbolId} {s : Symbol} :
    Model.menuChoices.IsShownChoice id s ↔
      s.isChoice ∧ (id = ⟨0⟩ ∨ id = ⟨1⟩ ∨ id = ⟨2⟩) := by
  have hmenus : (∃ menu ∈ Model.menuChoices.menus, menu.symbol = some id) ↔
      some id ∈ [some ⟨0⟩, some ⟨1⟩, some ⟨2⟩, some (⟨0⟩ : SymbolId)] := by
    rw [Model.menus_menuChoices, ← List.mem_map]
    rfl
  unfold Model.IsShownChoice
  rw [hmenus]
  simp only [List.mem_cons, Option.some.injEq, List.not_mem_nil, or_false]
  tauto

/-- The dump of `menuChoices` is the same where the choice that it shows lists its members. -/
theorem menuChoices_dump_eq :
    Model.menuChoices.validate = .ok () ∧
      Model.menuChoices.Reshaped Model.menuChoices.AddsMembers membersAdded ∧
      (dump membersAdded).output = (dump Model.menuChoices).output ∧
      (dump membersAdded).ending = (dump Model.menuChoices).ending := by
  have hmembers : ∀ id s, Model.menuChoices.symbol? id = some s →
      Model.menuChoices.IsShownChoice id s → Model.menuChoices.choiceMembers id s ≠ [] := by
    intro id s hs hshown
    obtain ⟨hchoice, rfl | rfl | rfl⟩ := isShownChoice_menuChoices_iff.mp hshown
    · rw [Model.choiceMembers_declaredTwice]
      exact List.cons_ne_nil _ _
    · obtain rfl := Option.some.inj hs
      cases hchoice
    · obtain rfl := Option.some.inj hs
      cases hchoice
  have hfirst : Model.menuChoices.AddsMembers ⟨0⟩ Model.declaredTwice
      membersAdded.symbols[0] := by
    have hshown : Model.menuChoices.IsShownChoice ⟨0⟩ Model.declaredTwice :=
      isShownChoice_menuChoices_iff.mpr ⟨rfl, .inl rfl⟩
    refine ⟨fun _ => ?_, fun hnot => (hnot hshown).elim⟩
    rw [Model.membersProperty, Model.choiceMembers_declaredTwice]
    rfl
  have hothers : ∀ id s, ¬ (s.isChoice ∧ (id = ⟨0⟩ ∨ id = ⟨1⟩ ∨ id = ⟨2⟩)) →
      Model.menuChoices.AddsMembers id s s := by
    intro id s hnot
    exact ⟨fun hshown => (hnot (isShownChoice_menuChoices_iff.mp hshown)).elim, fun _ => rfl⟩
  have hreshaped : Model.menuChoices.Reshaped Model.menuChoices.AddsMembers membersAdded := by
    refine Model.Reshaped.of_entries rfl rfl rfl ?_
    exact .cons hfirst (.cons (hothers _ _ (by decide)) (.cons (hothers _ _ (by decide))
      (.cons (hothers _ _ (by decide)) .nil)))
  exact ⟨Model.validate_menuChoices, hreshaped,
    dump_eq_of_reshaped Model.validate_menuChoices hreshaped hmembers⟩

end Dump

end Kconfig
