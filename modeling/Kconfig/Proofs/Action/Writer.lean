import Kconfig.Action.Writer
import Kconfig.Proofs.Model.Resolution
import Kconfig.Proofs.Writer.Plan

/-!
# What the writers write

Every writer of the library carries out its plan: one lemma for each writer, from the single record
or piece up to the action (`Action.emit_eq_ofRun`). A writer that did anything with a refusal but
end, or that wrote a part of a record before the rest of it was known, would not be the one that
carries out the plan.
-/

namespace Kconfig

open Writer

/-! ## Looking symbols up -/

section Find

variable {ρ : Type} {text : ρ → Run String} {m : Model} {id : SymbolId} {w : Symbol → Writer Unit}

/-- A symbol that is found is written about. -/
theorem find_performs_of_some {s : Symbol} {steps : List (Step ρ)} (h : m.symbol? id = some s)
    (hw : Performs text (w s) steps) : Performs text (do let s ← m.find id; w s) steps := by
  rw [Model.find_of_symbol? h]
  exact hw

/-- A symbol that is not found ends the writer. -/
theorem find_performs_of_none (h : m.symbol? id = none) :
    Performs text (do let s ← m.find id; w s) [.stop (.outOfTable id)] := by
  have hfind : m.find id = Run.stop (.outOfTable id) := by rw [Model.find, h]
  rw [hfind]
  exact .stop (.outOfTable id)

end Find

/-! ## The constraint encoding -/

/-- A record is one write. -/
theorem Record.emit_performs (p : Printer) (r : Record) :
    Performs (Record.line p) (r.emit p) [.write r] :=
  .write r

namespace Constraint

/-- Declarations are written as planned. -/
theorem emitDeclarations_performs (p : Printer) (s : Symbol) :
    Performs (Record.line p) (emitDeclarations p s) (declarations s) := by
  unfold emitDeclarations declarations
  rcases s.named with _ | name
  · exact .nil
  rcases s.kind.constraintName with _ | type
  · exact .note _
  have hdefaults : Performs (Record.line p)
      (s.defaults.forM fun d => d.expr.forM fun value =>
        Record.emit p (.default name s.kind.isBoolean value d.visible))
      (s.defaults.filterMap fun d => d.expr.map fun value =>
        .write (.default name s.kind.isBoolean value d.visible)) := by
    rw [List.filterMap_eq_flatMap_toList]
    apply Performs.forM
    intro d
    rcases d.expr with _ | value
    · exact .nil
    · exact Record.emit_performs p _
  have hprompts := Performs.forM_map
    (fun prompt : Property => Record.emit_performs p (.prompt name prompt.visible)) s.prompts
  exact (Record.emit_performs p (.config name type)).append (hprompts.append hdefaults)

/-- The record of a choice is written as planned. -/
theorem emitChoice_performs (m : Model) (settings : Settings) (id : SymbolId) (s : Symbol) :
    Performs (Record.line ⟨m, settings.namePrefix, .logic⟩)
      (emitChoice ⟨m, settings.namePrefix, .logic⟩ id s) [choiceRule m id s] := by
  unfold emitChoice choiceRule
  by_cases h : s.kind.isBoolean
  · rw [if_pos h, if_pos h]
    exact Record.emit_performs _ _
  · rw [if_neg h, if_neg h]
    exact .fail _

/-- An optional record. -/
theorem optionalRecord_performs (p : Printer) (record : Expr → Record) (e? : Option Expr) :
    Performs (Record.line p) (e?.forM fun e => Record.emit p (record e))
      (match e? with
        | some e => [.write (record e)]
        | none => []) := by
  rcases e? with _ | e
  · exact .nil
  · exact Record.emit_performs p (record e)

/-- What selects an option and what it selects is written as planned. -/
theorem emitReverseRules_performs (p : Printer) (name : String) (s : Symbol) :
    Performs (Record.line p) (emitReverseRules p name s) (reverseRules name s) :=
  (Performs.forM_map (fun select : Property =>
    Record.emit_performs p (.select select.expr name select.visible)) s.selects).append
    (optionalRecord_performs p (fun e => .revDep name (some e)) s.revDep)

/-- Dependencies are written as planned. -/
theorem emitDependencies_performs (p : Printer) (settings : Settings) (name : String) (s : Symbol) :
    Performs (Record.line p) (emitDependencies p settings name s)
      (dependencies settings name s) := by
  simp only [dependencies, List.append_assoc]
  apply (optionalRecord_performs p (fun e => .dep name (some e)) s.dirDep).append
  apply (Performs.when _ (emitReverseRules_performs p name s)).append
  exact .when _ (Record.emit_performs p (.dep name none))

/-- The rules of a symbol are written as planned. -/
theorem emitRules_performs (m : Model) (settings : Settings) (id : SymbolId) (s : Symbol) :
    Performs (Record.line ⟨m, settings.namePrefix, .logic⟩)
      (emitRules ⟨m, settings.namePrefix, .logic⟩ settings id s) (rules m settings id s) := by
  have hchoice := Performs.when s.isChoice (emitChoice_performs m settings id s)
  refine hchoice.append ?_
  rcases s.named with _ | name
  · exact .nil
  have hdependencies := Performs.when (s.kind ≠ .unknown)
    (emitDependencies_performs ⟨m, settings.namePrefix, .logic⟩ settings name s)
  rwa [ite_not] at hdependencies

/-- The encoding is written as planned. -/
theorem emit_performs (m : Model) (settings : Settings) :
    Performs (Record.line ⟨m, settings.namePrefix, .logic⟩) (emit m settings)
      (encoding m settings) := by
  have hdeclarations := Performs.forM
    (fun entry : SymbolId × Symbol =>
      emitDeclarations_performs ⟨m, settings.namePrefix, .logic⟩ entry.2) m.entries
  have hrules := Performs.forM
    (fun entry : SymbolId × Symbol => emitRules_performs m settings entry.1 entry.2) m.entries
  exact (Performs.note (.extracting m.symbols.size)).append (hdeclarations.append hrules)

end Constraint

/-! ## Listings -/

namespace Listing

/-- A name is one write. -/
theorem emitName_performs (name : String) :
    Performs (fun name => return name ++ "\n") (emitName name) [.write name] := by
  exact .write name

/-- Names are written as planned. -/
theorem emitNames_performs (names : List String) :
    Performs (fun name => return name ++ "\n") (emitNames names) (names.map .write) :=
  Performs.forM_map emitName_performs names

/-- The names of menu symbols are written as planned. -/
theorem emitMenuSymbols_performs (m : Model) :
    Performs (fun name => return name ++ "\n") (emitMenuSymbols m) (menuSymbols m) := by
  apply Performs.forM
  intro menu
  rcases menu.symbol with _ | id
  · exact .nil
  rcases h : m.symbol? id with _ | s
  · simp only [h]
    exact find_performs_of_none h
  · simp only [h]
    apply find_performs_of_some h
    rcases s.named with _ | name
    · exact .nil
    · exact emitName_performs name

/-- The dependencies of a symbol are written as planned. -/
theorem emitDeps_performs (m : Model) (settings : Settings) (name : String) :
    Performs (Record.line ⟨m, settings.namePrefix, .boolean⟩) (emitDeps m settings name)
      (deps m settings name) := by
  unfold emitDeps deps
  rcases m.lookup name with _ | ⟨id, s⟩
  · exact .fail _
  · exact (Record.emit_performs _ (.dep name s.dirDep)).append
      (.when _ (Record.emit_performs _ (.revDep name s.revDep)))

end Listing

/-! ## The dump -/

namespace Dump

/-- A piece is one write. -/
theorem Piece.emit_performs (m : Model) (piece : Piece) :
    Performs (Piece.render m) (piece.emit m) [.write piece] :=
  .write piece

/-- A piece for something optional. -/
theorem optionalPiece_performs {α : Type} (m : Model) (piece : α → Piece) (a? : Option α) :
    Performs (Piece.render m) (a?.forM fun a => Piece.emit m (piece a))
      (optionalPiece piece a?) := by
  rcases a? with _ | a
  · exact .nil
  · exact Piece.emit_performs m (piece a)

/-- A property is written as planned. -/
theorem emitProperty_performs (m : Model) (p : Property) :
    Performs (Piece.render m) (emitProperty m p) (propertySteps p) := by
  simp only [propertySteps, List.append_assoc]
  apply (Piece.emit_performs m (.openProperty p.kind)).append
  apply (optionalPiece_performs m .text p.text).append
  apply (optionalPiece_performs m (.value p.kind.dumpName) p.expr).append
  apply (optionalPiece_performs m (.visible p.kind.dumpName) p.visible).append
  exact Piece.emit_performs m .closeProperty

/-- The property of the members of a choice is written as planned. -/
theorem emitMembers_performs (m : Model) (id : SymbolId) (s : Symbol) :
    Performs (Piece.render m) (emitMembers m id s) (membersSteps m id s) := by
  simp only [membersSteps, List.append_assoc]
  apply (Piece.emit_performs m (.members (m.choiceMembers id s))).append
  apply (optionalPiece_performs m (.visible "choice visibility") _).append
  exact Piece.emit_performs m .closeProperty

/-- A symbol of the table is written as planned. -/
theorem emitSymbol_performs {m : Model} {id : SymbolId} {s : Symbol} (h : m.symbol? id = some s) :
    Performs (Piece.render m) (emitSymbol m id) (symbolSteps m id s) := by
  apply find_performs_of_some h
  unfold symbolSteps
  by_cases hchoice : s.isChoice && !s.kind.isBoolean
  · rw [if_pos hchoice, if_pos hchoice]
    exact .fail _
  · rw [if_neg hchoice, if_neg hchoice]
    simp only [List.append_assoc]
    apply (Performs.when _ (.note (.untypedDumped id))).append
    apply (Piece.emit_performs m (.openSymbol s.kind s.flags id)).append
    apply (optionalPiece_performs m .name s.name).append
    apply (Performs.forM (emitProperty_performs m) s.properties).append
    apply (Performs.when _ (emitMembers_performs m id s)).append
    exact Piece.emit_performs m .closeSymbol

/-- A menu is written as planned. -/
theorem emitMenu_performs (m : Model) (menu : Menu) :
    Performs (Piece.render m) (emitMenu m menu) (menuSteps m menu) := by
  simp only [menuSteps, List.append_assoc]
  apply (Piece.emit_performs m (.openMenu menu.flags)).append
  refine Performs.append ?_ ((optionalPiece_performs m .dep menu.dep).append
    (Piece.emit_performs m .closeMenu))
  rcases menu.symbol with _ | id
  · exact .nil
  rcases h : m.symbol? id with _ | s
  · simp only [h]
    exact find_performs_of_none h
  · simp only [h]
    exact emitSymbol_performs h

/-- What there is to an event of the walk is written as planned. -/
theorem emitEvent_performs (m : Model) (event : WalkEvent) :
    Performs (Piece.render m) (emitEvent m event) (eventSteps m event) := by
  cases event with
  | visit menu => exact emitMenu_performs m menu
  | descend => exact Piece.emit_performs m .openSubmenu
  | ascend => exact Piece.emit_performs m .closeSubmenu

/-- The dump is written as planned. -/
theorem emit_performs (m : Model) : Performs (Piece.render m) (emit m) (steps m) := by
  apply (Performs.note .dumping).append
  apply (Piece.emit_performs m .openSubmenu).append
  exact Performs.forM (emitEvent_performs m) m.root.walk.events

end Dump

/-! ## Actions -/

/-- Every action writes what its run writes. -/
theorem Action.emit_eq_ofRun (action : Action) (m : Model) (settings : Settings) :
    action.emit m settings = ofRun (action.run m settings) := by
  have houtput : action.emitOutput m settings = ofRun (action.output m settings) := by
    cases action with
    | configs => exact Listing.emitNames_performs (Listing.configs m)
    | kconfigs => exact Listing.emitNames_performs (Listing.kconfigs m)
    | menuSymbols => exact Listing.emitMenuSymbols_performs m
    | defaults => exact Listing.emitNames_performs (Listing.defaults m settings)
    | extract => exact Constraint.emit_performs m settings
    | deps name => exact Listing.emitDeps_performs m settings name
    | dump => exact Dump.emit_performs m
  rw [emit, houtput, run, ofRun_bind, ofRun_log]

end Kconfig
