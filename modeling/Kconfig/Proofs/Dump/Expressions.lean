import Kconfig.Proofs.Dump.ChoiceShape
import Kconfig.Proofs.Model.Expressions

/-!
# Dumps of models with other expressions

Where the same is done to every expression of a model, the plan of its dump is the same, but for the
expressions in its pieces (`Dump.steps_mapExprs`). Everything else that the plan depends on is no
expression: the types and flags of symbols, the lists of members in menus, and where things stand.
A piece has the text that it has in the first model, since the symbols are shown by what they are
called. So the dump is the plan of the first model with other texts (`Dump.dump_mapExprs`).
-/

namespace Kconfig.Dump

variable {f : Expr → Expr} {m : Model}

/-- Does something to the expression of a piece that shows one. -/
def Piece.mapExprs (f : Expr → Expr) : Piece → Piece
  | dep e => dep (f e)
  | value context e => value context (f e)
  | visible context e => visible context (f e)
  | piece => piece

/-- Does something to the expression of a step that writes one. -/
def mapStep (f : Expr → Expr) : Step Piece → Step Piece :=
  Step.map (Piece.mapExprs f)

/-! ## Plans -/

/-- The pieces of a changed value are the changed pieces of the value. -/
theorem optionalPiece_map (piece : Expr → Piece) (hpiece : ∀ e, (piece e).mapExprs f = piece (f e))
    (e : Option Expr) :
    optionalPiece piece (e.map f) = (optionalPiece piece e).map (mapStep f) := by
  rcases e with _ | e
  · rfl
  · show [Step.write (piece (f e))] = [Step.write ((piece e).mapExprs f)]
    rw [hpiece]

/-- What is no expression stays. -/
theorem map_optionalPiece {α : Type} (piece : α → Piece)
    (hpiece : ∀ a, (piece a).mapExprs f = piece a) (a : Option α) :
    (optionalPiece piece a).map (mapStep f) = optionalPiece piece a := by
  rcases a with _ | a
  · rfl
  · show [Step.write ((piece a).mapExprs f)] = [Step.write (piece a)]
    rw [hpiece]

/-- The steps of a changed property are the changed steps of the property. -/
theorem propertySteps_mapExprs (p : Property) :
    propertySteps (p.mapExprs f) = (propertySteps p).map (mapStep f) := by
  have hvalue := optionalPiece_map (f := f) (.value p.kind.dumpName) (fun _ => rfl) p.expr
  have hvisible := optionalPiece_map (f := f) (.visible p.kind.dumpName) (fun _ => rfl) p.visible
  have htext := map_optionalPiece (f := f) .text (fun _ => rfl) p.text
  unfold propertySteps
  rw [List.map_append, List.map_append, List.map_append, List.map_append, ← hvalue, ← hvisible,
    htext]
  rfl

/-- The members of a choice are shown by the changed pieces, where menus hold them. -/
theorem membersSteps_mapExprs (h : m.capabilities.choiceMembers = .menu) (id : SymbolId)
    (s : Symbol) :
    membersSteps (m.mapExprs f) id (s.mapExprs f) = (membersSteps m id s).map (mapStep f) := by
  have hlast : ((s.mapExprs f).propertiesOf .symbol).getLast?.bind Property.visible =
      ((s.propertiesOf .symbol).getLast?.bind Property.visible).map f := by
    rw [Symbol.propertiesOf_mapExprs, List.getLast?_map]
    rcases (s.propertiesOf .symbol).getLast? with _ | p <;> rfl
  unfold membersSteps
  rw [hlast, optionalPiece_map _ fun _ => rfl, Model.choiceMembers_mapExprs h, List.map_append,
    List.map_append]
  rfl

/-- The steps of a changed symbol are the changed steps of the symbol. -/
theorem symbolSteps_mapExprs (id : SymbolId) (s : Symbol) :
    symbolSteps (m.mapExprs f) id (s.mapExprs f) = (symbolSteps m id s).map (mapStep f) := by
  have hnote : (if s.kind = .unknown then [.note (.untypedDumped id)] else []) =
      (if s.kind = .unknown then [.note (.untypedDumped id)] else []).map (mapStep f) := by
    split <;> rfl
  have hname := map_optionalPiece (f := f) .name (fun _ => rfl) s.name
  have hproperties : (s.mapExprs f).properties.flatMap propertySteps =
      (s.properties.flatMap propertySteps).map (mapStep f) := by
    show (s.properties.map (Property.mapExprs f)).flatMap propertySteps = _
    rw [List.flatMap_map, List.map_flatMap]
    exact List.flatMap_congr fun p _ => propertySteps_mapExprs p
  have hmembers : (if s.isChoice && m.capabilities.choiceMembers = .menu then
      membersSteps (m.mapExprs f) id (s.mapExprs f) else []) =
      (if s.isChoice && m.capabilities.choiceMembers = .menu then
        membersSteps m id s else []).map (mapStep f) := by
    split
    · next h =>
      have hshape : m.capabilities.choiceMembers = .menu := by
        simpa using (Bool.and_eq_true_iff.mp h).2
      exact membersSteps_mapExprs hshape id s
    · rfl
  unfold symbolSteps
  show (if s.isChoice && !s.kind.isBoolean then _ else _) = _
  split
  · rfl
  · simp only [List.map_append, ← hproperties, hname, ← hmembers, ← hnote]
    rfl

/-- The steps of a changed menu are the changed steps of the menu. -/
theorem menuSteps_mapExprs (menu : Menu) :
    menuSteps (m.mapExprs f) (menu.mapDep f) = (menuSteps m menu).map (mapStep f) := by
  have hdep := optionalPiece_map (f := f) .dep (fun _ => rfl) menu.dep
  rw [Menu.mapDep_eq]
  unfold menuSteps
  simp only [List.map_append, ← hdep, Model.symbol?_mapExprs]
  congr 3
  rcases menu.symbol with _ | id
  · rfl
  · simp only
    rcases m.symbol? id with _ | s
    · rfl
    · exact symbolSteps_mapExprs id s

/-- The steps of a changed model are the changed steps of the model. -/
theorem steps_mapExprs (f : Expr → Expr) (m : Model) :
    steps (m.mapExprs f) = (steps m).map (mapStep f) := by
  have hevent : ∀ e : WalkEvent, eventSteps (m.mapExprs f) (e.map (Menu.mapDep f)) =
      (eventSteps m e).map (mapStep f) := by
    intro e
    cases e with
    | visit menu => exact menuSteps_mapExprs menu
    | descend | ascend => rfl
  have hwalk : (m.mapExprs f).root.walk.events =
      m.root.walk.events.map (WalkEvent.map (Menu.mapDep f)) :=
    Menu.walk_events_mapDep m.root
  unfold steps
  rw [hwalk, List.flatMap_map, List.map_cons, List.map_cons, List.map_flatMap]
  congr 2
  exact List.flatMap_congr fun e _ => hevent e

/-! ## Texts -/

/-- Symbols are shown by what they are called. -/
theorem symbolText_mapExprs : symbolText (m.mapExprs f) = symbolText m := by
  funext sym
  cases sym with
  | truth t => rfl
  | entry id =>
    simp only [symbolText, Model.find, Model.symbol?_mapExprs]
    rcases m.symbol? id with _ | s <;> rfl

/-- The dump of a changed model is the dump of the model with its expressions changed on the way. -/
theorem dump_mapExprs (f : Expr → Expr) (m : Model) :
    dump (m.mapExprs f) = Step.runAll (fun piece => (piece.mapExprs f).render m) (steps m) := by
  unfold dump
  rw [steps_mapExprs, render_eq_of_symbolText symbolText_mapExprs]
  exact Step.runAll_map (Piece.mapExprs f) (Piece.render m) (steps m)

end Kconfig.Dump
