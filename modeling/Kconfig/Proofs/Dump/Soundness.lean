import Kconfig.Dump.Tree
import Kconfig.Proofs.Dump.Tokens
import Kconfig.Proofs.Model.Soundness
import Kconfig.Proofs.Run.Orderly

/-!
# The dump of sound models

The dump shows symbols in more places than the constraints do: menus, all properties of their
symbols, and lists of choice members. In a sound model all of these resolve, so the dump is orderly
(`Dump.dump_orderly`). It may still end with an error, since some expressions and some choices
cannot be shown.
-/

namespace Kconfig.Dump

variable {m : Model}

/-! ## Expressions -/

/-- Whether the symbol that a token shows, if it shows one, resolves. -/
def Token.ResolvesIn (m : Model) : Token → Prop
  | symbol sym => m.Resolves sym
  | _ => True

/-- A token is put into text or refused with an error, if the table has its symbol. -/
theorem tokenText_orderly (context : String) {t : Token} (h : t.ResolvesIn m) :
    (tokenText m context t).Orderly := by
  cases t with
  | text s => exact Run.orderly_pure s
  | symbol sym =>
    cases sym with
    | truth t => exact Run.orderly_pure t.letter
    | entry id =>
      obtain ⟨s, hs⟩ := h
      simp only [tokenText, symbolText, Model.find_of_symbol? hs]
      exact Run.orderly_pure _
  | ordering op =>
    apply (Run.orderly_log _).bind
    intro _ _
    exact Run.orderly_pure "y"
  | unknown => exact Run.orderly_fail _

/-- Tokens are put into text or refused with an error, if the table has their symbols. -/
theorem tokensText_orderly (context : String) {tokens : List Token}
    (h : ∀ t ∈ tokens, t.ResolvesIn m) : (tokensText m context tokens).Orderly := by
  have htexts : (tokens.mapM (tokenText m context)).Orderly := by
    apply Run.Orderly.mapM
    intro t ht
    exact tokenText_orderly context (h t ht)
  apply htexts.bind
  intro texts _
  exact Run.orderly_pure _

/-- An expression shows the symbols that it refers to. -/
theorem verbatim_resolves {e : Expr} (h : m.ResolvesAll e) :
    ∀ t ∈ verbatim e, t.ResolvesIn m :=
  forall_mem_verbatim (fun _ _ => trivial) (fun _ => trivial) trivial h

/-- An expression is put into text or refused with an error, if the table has its references. -/
theorem exprText_orderly (context : String) {e : Expr} (h : m.ResolvesAll e) :
    (exprText m context e).Orderly :=
  tokensText_orderly context (verbatim_resolves h)

/-- The tokens of a chain show its members. -/
theorem chain_resolves {members : List SymbolRef} (h : ∀ sym ∈ members, m.Resolves sym) :
    ∀ t ∈ chain members, t.ResolvesIn m :=
  forall_mem_chain (fun _ _ => trivial) h

/-! ## Pieces -/

/-- Whether everything that a piece shows resolves. -/
def Piece.ResolvesIn (m : Model) : Piece → Prop
  | dep e | value _ e | visible _ e => m.ResolvesAll e
  | members list => ∀ sym ∈ list, m.Resolves sym
  | _ => True

/-- A piece is put into text or refused with an error, if the table has what it shows. -/
theorem Piece.render_orderly {piece : Piece} (h : piece.ResolvesIn m) :
    (piece.render m).Orderly := by
  cases piece with
  | dep e | value context e | visible context e =>
    apply (exprText_orderly _ h).bind
    intro text _
    exact Run.orderly_pure _
  | members list =>
    apply (tokensText_orderly "" (chain_resolves h)).bind
    intro text _
    exact Run.orderly_pure _
  | openSubmenu | closeSubmenu | openMenu | closeMenu | openSymbol | closeSymbol | name
  | openProperty | closeProperty | text => exact Run.orderly_pure _

/-- An optional piece shows what the table has, if the value does. -/
theorem optionalPiece_resolves {α : Type} {piece : α → Piece} {a : Option α}
    (h : ∀ a' ∈ a, (piece a').ResolvesIn m) :
    ∀ step ∈ optionalPiece piece a, step.Admits (Piece.ResolvesIn m) := by
  rcases a with _ | a
  · exact nofun
  · exact List.forall_mem_singleton.mpr (h a rfl)

/-- The steps of a property show what the table has, if its expressions refer to that. -/
theorem propertySteps_resolve {p : Property} (hvalue : ∀ e ∈ p.expr, m.ResolvesAll e)
    (hvisible : ∀ e ∈ p.visible, m.ResolvesAll e) :
    ∀ step ∈ propertySteps p, step.Admits (Piece.ResolvesIn m) := by
  unfold propertySteps
  simp only [List.forall_mem_append, List.forall_mem_singleton]
  have htext : ∀ step ∈ optionalPiece .text p.text, step.Admits (Piece.ResolvesIn m) :=
    optionalPiece_resolves fun _ _ => trivial
  exact ⟨⟨⟨⟨trivial, htext⟩, optionalPiece_resolves hvalue⟩, optionalPiece_resolves hvisible⟩,
    trivial⟩

/-! ## The tree -/

/-- The condition of the last declaration is that of a property. -/
theorem exists_of_lastDeclaration {s : Symbol} {e : Expr}
    (h : e ∈ (s.propertiesOf .symbol).getLast?.bind Property.visible) :
    ∃ p ∈ s.properties, p.visible = some e := by
  obtain ⟨p, hlast, hp⟩ := Option.bind_eq_some_iff.mp h
  exact ⟨p, (List.mem_filter.mp (List.mem_of_getLast? hlast)).1, hp⟩

/-- The members of a choice of a sound model are in the table. -/
theorem membersSteps_resolve (h : m.IsSound) (id : SymbolId) {s : Symbol} (hs : s ∈ m.symbols) :
    ∀ step ∈ membersSteps m id s, step.Admits (Piece.ResolvesIn m) := by
  unfold membersSteps
  simp only [List.forall_mem_append, List.forall_mem_singleton]
  refine ⟨⟨h.choiceMembers hs, optionalPiece_resolves ?_⟩, trivial⟩
  intro e he
  obtain ⟨p, hmem, hp⟩ := exists_of_lastDeclaration he
  exact h.visible s hs p hmem e hp

/-- The steps of a symbol of a sound model show what its table has. -/
theorem symbolSteps_resolve (h : m.IsSound) (id : SymbolId) {s : Symbol} (hs : s ∈ m.symbols) :
    ∀ step ∈ symbolSteps m id s, step.Admits (Piece.ResolvesIn m) := by
  unfold symbolSteps
  split
  · exact List.forall_mem_singleton.mpr ⟨_, rfl⟩
  · simp only [List.forall_mem_append, List.forall_mem_singleton]
    refine ⟨⟨⟨⟨⟨?_, trivial⟩, ?_⟩, ?_⟩, ?_⟩, trivial⟩
    · split
      · exact List.forall_mem_singleton.mpr trivial
      · exact nofun
    · exact optionalPiece_resolves fun _ _ => trivial
    · simp only [List.mem_flatMap]
      rintro step ⟨p, hp, hstep⟩
      exact propertySteps_resolve (h.value s hs p hp) (h.visible s hs p hp) step hstep
    · split
      · exact membersSteps_resolve h id hs
      · exact nofun

/-- The steps of a menu of a sound model show what its table has. -/
theorem menuSteps_resolve (h : m.IsSound) {menu : Menu} (hmenu : menu ∈ m.menus) :
    ∀ step ∈ menuSteps m menu, step.Admits (Piece.ResolvesIn m) := by
  unfold menuSteps
  simp only [List.forall_mem_append, List.forall_mem_singleton]
  refine ⟨⟨⟨trivial, ?_⟩, optionalPiece_resolves (h.menuDep menu hmenu)⟩, trivial⟩
  rcases hid : menu.symbol with _ | id
  · exact nofun
  · obtain ⟨s, hs⟩ := h.menuSymbol menu hmenu id hid
    simp only [hs]
    exact symbolSteps_resolve h id (Model.mem_symbols_of_symbol? hs)

/-- The walk visits the menus of the model. -/
theorem mem_menus_of_visit {menu : Menu} (h : .visit menu ∈ m.root.walk.events) :
    menu ∈ m.menus :=
  List.mem_filterMap.mpr ⟨_, h, rfl⟩

/-- The steps for each event of the walk through a sound model show what its table has. -/
theorem eventSteps_resolve (h : m.IsSound) {event : WalkEvent}
    (hevent : event ∈ m.root.walk.events) :
    ∀ step ∈ eventSteps m event, step.Admits (Piece.ResolvesIn m) := by
  cases event with
  | visit menu => exact menuSteps_resolve h (mem_menus_of_visit hevent)
  | descend => exact List.forall_mem_singleton.mpr trivial
  | ascend => exact List.forall_mem_singleton.mpr trivial

/-- All steps for a sound model show what its table has, or stop with an error. -/
theorem steps_resolve (h : m.IsSound) :
    ∀ step ∈ steps m, step.Admits (Piece.ResolvesIn m) := by
  unfold steps
  simp only [List.forall_mem_cons, List.mem_flatMap]
  refine ⟨trivial, trivial, ?_⟩
  rintro step ⟨event, hevent, hstep⟩
  exact eventSteps_resolve h hevent step hstep

/-- The dump of a sound model. -/
theorem dump_orderly (h : m.IsSound) : (dump m).Orderly :=
  Step.runAll_orderly (fun _ => Piece.render_orderly) (steps_resolve h)

end Kconfig.Dump
