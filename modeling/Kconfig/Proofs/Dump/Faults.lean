import Kconfig.Proofs.Dump.Expressions
import Kconfig.Proofs.Dump.Nesting
import Kconfig.Proofs.Run.Failure

/-!
# Where the dump stops

Two things cannot be shown: a choice of a type that choices cannot have, and an expression with a
node whose operator is not known. All else that a dump might fail for is not in a checked model. So
a dump fails at the first menu, in pre-order, that has one of these two in it (`Dump.menuFault?`):
in a menu the type of its symbol comes first, then the expressions of the symbol's properties in
their order, the value of each before its condition, and last the condition of the menu.

The list of members that the dump shows for a choice has a condition, too, and one that cannot be
shown would be told in words of its own. It is the condition of one of the properties, which the
dump has been through before, so it is never told (`Dump.membersFault_eq_none`).

What the dump has written before it stops is how the dump of the model begins that has the leaf `y`
for each such node, since no expression that was shown has one.
-/

namespace Kconfig.Dump

open Step (failure?)

variable {m : Model}

/-! ## Faults -/

/-- Why an expression cannot be shown. -/
def exprFault? (context : String) (e : Expr) : Option Error :=
  if e.hasUnknown then some (.unrenderable context) else none

/-- Why a property cannot be shown: its value comes before its condition. -/
def propertyFault? (p : Property) : Option Error :=
  (p.expr.bind (exprFault? p.kind.dumpName)).or (p.visible.bind (exprFault? p.kind.dumpName))

/-- Why a symbol cannot be shown: its type comes before its properties. -/
def symbolFault? (id : SymbolId) (s : Symbol) : Option Error :=
  if s.IsInvalidChoice then some (.invalidChoiceType id s.kind)
  else s.properties.findSome? propertyFault?

/-- Why a menu cannot be shown: its symbol comes before its condition. -/
def menuFault? (m : Model) (menu : Menu) : Option Error :=
  (menu.symbol.bind fun id => (m.symbol? id).bind (symbolFault? id)).or
    (menu.dep.bind (exprFault? "menu dependency"))

/-! ## Expressions -/

/-- A node whose operator is not known has a token of its own. -/
theorem unknown_mem_verbatim_iff {e : Expr} : .unknown ∈ verbatim e ↔ e.hasUnknown := by
  induction e with
  | symbol | listLast | range => simp [Expr.hasUnknown]
  | compare op l r => cases op <;> simp [Expr.hasUnknown, verbatimComparison]
  | not e ih => simp [Expr.hasUnknown, ih]
  | and l r ihl ihr | or l r ihl ihr => simp [Expr.hasUnknown, ihl, ihr]
  | listCons a tail ih => simp [Expr.hasUnknown, ih]
  | unknown => simp [Expr.hasUnknown]

/-- Every other token has a text. -/
theorem exists_tokenText (context : String) {t : Token} (h : t.ResolvesIn m) (ht : t ≠ .unknown) :
    ∃ text, (tokenText m context t).ending = .ok text := by
  cases t with
  | text | ordering => exact ⟨_, rfl⟩
  | symbol sym =>
    cases sym with
    | truth t => exact ⟨_, rfl⟩
    | entry id =>
      obtain ⟨s, hs⟩ := h
      refine ⟨entryText id s, ?_⟩
      simp only [tokenText, symbolText, Model.find_of_symbol? hs, pure_bind, Run.pure_ending]
  | unknown => exact absurd rfl ht

/-- An expression that is put into text has no such node. -/
theorem not_hasUnknown_of_exprText {context : String} {e : Expr} {text : String}
    (h : (exprText m context e).ending = .ok text) : ¬ e.hasUnknown := by
  obtain ⟨texts, htexts, -⟩ := Run.exists_of_bind_ok h
  intro hunknown
  obtain ⟨text, htext⟩ :=
    Run.exists_of_mapM_ok htexts .unknown (unknown_mem_verbatim_iff.mpr hunknown)
  cases htext

/-- An expression that resolves and has no such node is put into text. -/
theorem exists_exprText (context : String) {e : Expr} (h : m.ResolvesAll e) (he : ¬ e.hasUnknown) :
    ∃ text, (exprText m context e).ending = .ok text := by
  have htexts : ((verbatim e).mapM (tokenText m context)).IsQuiet := by
    apply Run.IsQuiet.mapM
    intro t ht
    have hknown : t ≠ .unknown := by
      rintro rfl
      exact he (unknown_mem_verbatim_iff.mp ht)
    exact ⟨writes_tokenText m context t,
      exists_tokenText context (verbatim_resolves h t ht) hknown⟩
  obtain ⟨-, texts, htexts⟩ := htexts
  refine ⟨String.join texts, ?_⟩
  rw [exprText, tokensText, Run.bind_of_ok htexts]
  rfl

/-- One that resolves and has one fails for it, and says where it stood. -/
theorem ending_exprText_of_hasUnknown (context : String) {e : Expr} (h : m.ResolvesAll e)
    (he : e.hasUnknown) :
    (exprText m context e).ending = .error (.error (.unrenderable context)) := by
  have htoken : ∀ t ∈ verbatim e,
      (tokenText m context t).ending = .error (.error (.unrenderable context)) ∨
        ∃ text, (tokenText m context t).ending = .ok text := by
    intro t ht
    by_cases hunknown : t = .unknown
    · rw [hunknown]
      exact .inl rfl
    · exact .inr (exists_tokenText context (verbatim_resolves h t ht) hunknown)
  have htokens := Run.ending_mapM_of_error htoken ⟨.unknown, unknown_mem_verbatim_iff.mpr he, rfl⟩
  rw [exprText, tokensText, Run.bind_of_error htokens]

/-- A piece that shows an expression fails as the expression does. -/
theorem failure?_shown {piece : Piece} {context : String} {e : Expr} {frame : String → String}
    (hpiece : piece.render m = do return frame (← exprText m context e)) (h : m.ResolvesAll e) :
    failure? (Piece.render m) (.write piece) = (exprFault? context e).map .error := by
  by_cases he : e.hasUnknown
  · have hrender : (piece.render m).ending = .error (.error (.unrenderable context)) := by
      rw [hpiece, Run.bind_of_error (ending_exprText_of_hasUnknown context h he)]
    rw [Step.failure?_write_of_error hrender, exprFault?, if_pos he, Option.map_some]
  · obtain ⟨text, htext⟩ := exists_exprText context h he
    have hrender : (piece.render m).ending = .ok (frame text) := by
      rw [hpiece, Run.bind_of_ok htext]
      rfl
    rw [Step.failure?_write_of_ok hrender, exprFault?, if_neg he, Option.map_none]

/-! ## Plans -/

/-- Why a plan fails. -/
def planFailure? (m : Model) (plan : List (Step Piece)) : Option Stop :=
  plan.findSome? (failure? (Piece.render m))

/-- The first failure of steps in a row is that of the first steps, if they fail. -/
theorem planFailure?_append (a b : List (Step Piece)) :
    planFailure? m (a ++ b) = (planFailure? m a).or (planFailure? m b) :=
  List.findSome?_append

/-- The first failure of a plan made of several is that of the first plan that fails. -/
theorem planFailure?_flatMap {α : Type} (plan : α → List (Step Piece)) (as : List α) :
    planFailure? m (as.flatMap plan) = as.findSome? fun a => planFailure? m (plan a) :=
  findSome?_flatMap

/-- A piece with an expression, if there is one. -/
theorem planFailure?_optionalPiece {piece : Expr → Piece} {context : String}
    {frame : String → String}
    (hpiece : ∀ e, (piece e).render m = do return frame (← exprText m context e))
    {e : Option Expr} (h : ∀ e' ∈ e, m.ResolvesAll e') :
    planFailure? m (optionalPiece piece e) = (e.bind (exprFault? context)).map .error := by
  rcases e with _ | e
  · rfl
  · show [Step.write (piece e)].findSome? _ = _
    rw [List.findSome?_singleton, failure?_shown (hpiece e) (h e rfl)]
    rfl

/-- The steps of a property fail with its fault, if everything in it resolves. -/
theorem planFailure?_propertySteps {p : Property} (hvalue : ∀ e ∈ p.expr, m.ResolvesAll e)
    (hvisible : ∀ e ∈ p.visible, m.ResolvesAll e) :
    planFailure? m (propertySteps p) = (propertyFault? p).map .error := by
  have htext : planFailure? m (optionalPiece .text p.text) = none := by
    rcases p.text with _ | text <;> rfl
  have hfirst : planFailure? m [.write (.openProperty p.kind)] = none := rfl
  have hlast : planFailure? m [.write .closeProperty] = none := rfl
  rw [propertySteps, planFailure?_append, planFailure?_append, planFailure?_append,
    planFailure?_append, hfirst, htext, hlast, planFailure?_optionalPiece (fun _ => rfl) hvalue,
    planFailure?_optionalPiece (fun _ => rfl) hvisible, Option.none_or, Option.none_or,
    Option.or_none, ← Option.map_or]
  rfl

/-- The condition of a list of members is that of a property before it. -/
theorem membersFault_eq_none {s : Symbol} (h : s.properties.findSome? propertyFault? = none)
    (context : String) :
    ((s.propertiesOf .symbol).getLast?.bind Property.visible).bind (exprFault? context) = none := by
  rw [Option.bind_eq_none_iff]
  intro e he
  obtain ⟨p, hmem, hp⟩ := exists_of_lastDeclaration he
  have hfault := List.findSome?_eq_none_iff.mp h p hmem
  have hvisible : exprFault? p.kind.dumpName e = none := by
    rw [propertyFault?, Option.or_eq_none_iff, hp] at hfault
    exact hfault.2
  have hknown : ¬ e.hasUnknown := by
    intro hunknown
    rw [exprFault?, if_pos hunknown] at hvisible
    cases hvisible
  rw [exprFault?, if_neg hknown]

/-- The members of a choice cannot fail where its properties have no fault. -/
theorem planFailure?_membersSteps (h : m.IsSound) {id : SymbolId} {s : Symbol} (hs : s ∈ m.symbols)
    (hproperties : s.properties.findSome? propertyFault? = none) :
    planFailure? m (membersSteps m id s) = none := by
  have hvisible : ∀ e ∈ (s.propertiesOf .symbol).getLast?.bind Property.visible,
      m.ResolvesAll e := by
    intro e he
    obtain ⟨p, hmem, hp⟩ := exists_of_lastDeclaration he
    exact h.visible s hs p hmem e hp
  have hfirst : planFailure? m [.write (.members (m.choiceMembers id s))] = none := by
    obtain ⟨line, hrender⟩ :
        ∃ line, (Piece.render m (.members (m.choiceMembers id s))).ending = .ok line := by
      rw [Piece.render, tokensText_chain (h.choiceMembers hs)]
      exact ⟨_, rfl⟩
    rw [planFailure?, List.findSome?_singleton, Step.failure?_write_of_ok hrender]
  have hlast : planFailure? m [.write .closeProperty] = none := rfl
  rw [membersSteps, planFailure?_append, planFailure?_append, hfirst, hlast,
    planFailure?_optionalPiece (fun _ => rfl) hvisible, membersFault_eq_none hproperties]
  rfl

/-- The steps of a symbol fail with its fault. -/
theorem planFailure?_symbolSteps (h : m.IsSound) (id : SymbolId) {s : Symbol} (hs : s ∈ m.symbols) :
    planFailure? m (symbolSteps m id s) = (symbolFault? id s).map .error := by
  by_cases hinvalid : s.IsInvalidChoice
  · obtain ⟨hchoice, hkind⟩ := Symbol.isInvalidChoice_iff.mp hinvalid
    rw [symbolSteps_of_isChoice m id hchoice, if_neg hkind, symbolFault?, if_pos hinvalid]
    rfl
  · have hshown : (s.isChoice && !s.kind.isBoolean) = false := by
      simpa [Symbol.isInvalidChoice_iff] using hinvalid
    have hproperties : planFailure? m (s.properties.flatMap propertySteps) =
        (s.properties.findSome? propertyFault?).map .error := by
      rw [planFailure?_flatMap, List.map_findSome?]
      apply findSome?_congr
      intro p hp
      exact planFailure?_propertySteps (h.value s hs p hp) (h.visible s hs p hp)
    have hnote : planFailure? m (if s.kind = .unknown then [.note (.untypedDumped id)] else []) =
        none := by
      split <;> rfl
    have hopen : planFailure? m [.write (.openSymbol s.kind s.flags id)] = none := rfl
    have hname : planFailure? m (optionalPiece .name s.name) = none := by
      rcases s.name with _ | name <;> rfl
    have hclose : planFailure? m [.write .closeSymbol] = none := rfl
    rw [symbolSteps, if_neg (Bool.eq_false_iff.mp hshown), planFailure?_append, planFailure?_append,
      planFailure?_append, planFailure?_append, planFailure?_append, hnote, hopen, hname,
      hproperties, hclose, symbolFault?, if_neg hinvalid, Option.none_or, Option.none_or,
      Option.none_or, Option.or_none]
    -- the list of members comes after the properties, and is never the first to fail
    rcases hfault : s.properties.findSome? propertyFault? with _ | fault
    · rw [Option.map_none, Option.none_or]
      split
      · exact planFailure?_membersSteps h hs hfault
      · rfl
    · rfl

/-- The steps of a menu fail with its fault. -/
theorem planFailure?_menuSteps (h : m.IsSound) {menu : Menu} (hmenu : menu ∈ m.menus) :
    planFailure? m (menuSteps m menu) = (menuFault? m menu).map .error := by
  have hopen : planFailure? m [.write (.openMenu menu.flags)] = none := rfl
  have hclose : planFailure? m [.write .closeMenu] = none := rfl
  rw [menuSteps, planFailure?_append, planFailure?_append, planFailure?_append, hopen, hclose,
    planFailure?_optionalPiece (fun _ => rfl) (h.menuDep menu hmenu), menuFault?, Option.none_or,
    Option.or_none, Option.map_or]
  congr 1
  rcases hid : menu.symbol with _ | id
  · rfl
  · obtain ⟨s, hs⟩ := h.menuSymbol menu hmenu id hid
    simp only [hs, Option.bind_some]
    exact planFailure?_symbolSteps h id (Model.mem_symbols_of_symbol? hs)

/-- The dump fails at the first menu that cannot be shown. -/
theorem ending_dump (h : m.IsSound) :
    (dump m).ending = (m.menus.findSome? (menuFault? m)).elim (.ok ()) fun fault =>
      .error (.error fault) := by
  have hmenus : m.menus = m.root.walk.events.filterMap WalkEvent.menu? := rfl
  have hplan : planFailure? m (steps m) = (m.menus.findSome? (menuFault? m)).map .error := by
    have hstart : planFailure? m (steps m) =
        planFailure? m (m.root.walk.events.flatMap (eventSteps m)) := rfl
    rw [hstart, planFailure?_flatMap, List.map_findSome?, hmenus, findSome?_filterMap]
    apply findSome?_congr
    intro e he
    cases e with
    | visit menu => exact planFailure?_menuSteps h (mem_menus_of_visit he)
    | descend | ascend => rfl
  rw [dump, Step.ending_runAll]
  show (planFailure? m (steps m)).elim _ _ = _
  rw [hplan]
  rcases m.menus.findSome? (menuFault? m) with _ | fault <;> rfl

/-! ## What has no fault -/

/-- An expression has no fault just if each of its nodes is known. -/
theorem exprFault?_eq_none_iff {context : String} {e : Expr} :
    exprFault? context e = none ↔ ¬ e.hasUnknown := by
  unfold exprFault?
  split
  · next h => exact iff_of_false nofun (not_not_intro h)
  · next h => exact iff_of_true rfl h

/-- An expression that may be absent has no fault just if each of its nodes is known. -/
theorem bind_exprFault?_eq_none_iff {context : String} {e : Option Expr} :
    e.bind (exprFault? context) = none ↔ ∀ e' ∈ e, ¬ e'.hasUnknown := by
  simp only [Option.bind_eq_none_iff, exprFault?_eq_none_iff, Option.mem_def]

/-- A property has no fault just if each node of its value and of its condition is known. -/
theorem propertyFault?_eq_none_iff {p : Property} :
    propertyFault? p = none ↔ (∀ e ∈ p.expr, ¬ e.hasUnknown) ∧ ∀ e ∈ p.visible, ¬ e.hasUnknown := by
  rw [propertyFault?, Option.or_eq_none_iff, bind_exprFault?_eq_none_iff,
    bind_exprFault?_eq_none_iff]

/-- A symbol has no fault just if it is no choice of a wrong type and its properties have none. -/
theorem symbolFault?_eq_none_iff {id : SymbolId} {s : Symbol} :
    symbolFault? id s = none ↔ ¬ s.IsInvalidChoice ∧ ∀ p ∈ s.properties,
      (∀ e ∈ p.expr, ¬ e.hasUnknown) ∧ ∀ e ∈ p.visible, ¬ e.hasUnknown := by
  unfold symbolFault?
  split
  · next h => exact iff_of_false nofun fun hvalid => hvalid.1 h
  · next h =>
    rw [List.findSome?_eq_none_iff, and_iff_right h]
    exact forall₂_congr fun p _ => propertyFault?_eq_none_iff

/-- A menu has no fault just if its symbol has none and each node of its dependency is known. -/
theorem menuFault?_eq_none_iff {menu : Menu} :
    menuFault? m menu = none ↔
      (∀ id s, menu.symbol = some id → m.symbol? id = some s → ¬ s.IsInvalidChoice ∧
        ∀ p ∈ s.properties, (∀ e ∈ p.expr, ¬ e.hasUnknown) ∧ ∀ e ∈ p.visible, ¬ e.hasUnknown) ∧
      ∀ e ∈ menu.dep, ¬ e.hasUnknown := by
  rw [menuFault?, Option.or_eq_none_iff, bind_exprFault?_eq_none_iff]
  apply and_congr_left'
  simp only [Option.bind_eq_none_iff, symbolFault?_eq_none_iff]
  constructor
  · intro h id s hid hs
    exact h id hid s hs
  · intro h id hid s hs
    exact h id s hid hs

/-! ## What faults say -/

/-- What cannot be shown is told by the name of its property or as the condition of a menu. -/
theorem context_of_menuFault? {menu : Menu} {context : String}
    (h : menuFault? m menu = some (.unrenderable context)) :
    context = "menu dependency" ∨ ∃ kind : PropertyKind, context = kind.dumpName := by
  have hexpr : ∀ {c : String} {e : Option Expr},
      e.bind (exprFault? c) = some (.unrenderable context) → context = c := by
    intro c e he
    obtain ⟨e', -, hfault⟩ := Option.bind_eq_some_iff.mp he
    unfold exprFault? at hfault
    split at hfault
    · cases hfault
      rfl
    · cases hfault
  rw [menuFault?, Option.or_eq_some_iff] at h
  rcases h with hsymbol | ⟨-, hdep⟩
  · obtain ⟨id, -, hid⟩ := Option.bind_eq_some_iff.mp hsymbol
    obtain ⟨s, -, hs⟩ := Option.bind_eq_some_iff.mp hid
    unfold symbolFault? at hs
    split at hs
    · cases hs
    · obtain ⟨p, -, hp⟩ := List.exists_of_findSome?_eq_some hs
      rw [propertyFault?, Option.or_eq_some_iff] at hp
      rcases hp with hvalue | ⟨-, hvisible⟩
      · exact .inr ⟨p.kind, hexpr hvalue⟩
      · exact .inr ⟨p.kind, hexpr hvisible⟩
  · exact .inl (hexpr hdep)

/-! ## What is written -/

/-- Nothing that has a text has a node to replace. -/
theorem ending_render_replaceUnknown {piece : Piece} {line : String}
    (h : (piece.render m).ending = .ok line) :
    ((piece.mapExprs Expr.replaceUnknown).render m).ending = .ok line := by
  cases piece with
  | dep e | value context e | visible context e =>
    obtain ⟨text, htext, -⟩ := Run.exists_of_bind_ok h
    rw [Piece.mapExprs, Expr.replaceUnknown_eq_self (not_hasUnknown_of_exprText htext)]
    exact h
  | openSubmenu | closeSubmenu | openMenu | closeMenu | openSymbol | closeSymbol | name
  | openProperty | closeProperty | text | members => exact h

/-- A dump has written how the dump with every such node replaced begins. -/
theorem writes_dump_isPrefix (m : Model) : (dump m).writes <+: (dump m.replaceUnknown).writes := by
  rw [Model.replaceUnknown, dump_mapExprs]
  exact Step.writes_runAll_isPrefix (writes_render m) (fun _ => writes_render m _)
    (fun _ _ => ending_render_replaceUnknown) (steps m)

/-! ## Dumps that stop -/

/-- The dump of a checked model comes to its end exactly where no menu below the root has a symbol
that is a choice of another type than `bool` or `tristate`, or a node whose operator is not known:
in an expression of its symbol's properties or in its own condition. Otherwise it fails at the first
fault in pre-order, and an expression that cannot be shown is told by the name of its property or as
the condition of a menu, and never as that of a list of members. What it has written is how the dump
of the model begins that has the leaf `y` for each such node. -/
theorem dump_stops (h : m.validate = .ok ()) :
    ((dump m).ending = .ok () ↔
        ∀ menu : Menu, menu.IsBelow m.root →
          (∀ id s, menu.symbol = some id → m.symbol? id = some s →
            ¬ (s.isChoice ∧ s.kind ≠ .bool ∧ s.kind ≠ .tristate) ∧
            ∀ p ∈ s.properties,
              (∀ e ∈ p.expr, ¬ e.hasUnknown) ∧ ∀ e ∈ p.visible, ¬ e.hasUnknown) ∧
          ∀ e ∈ menu.dep, ¬ e.hasUnknown) ∧
      (dump m).ending = ((Menu.preorder m.root.children).findSome? (menuFault? m)).elim (.ok ())
        (fun fault => .error (.error fault)) ∧
      (∀ context, (dump m).ending = .error (.error (.unrenderable context)) →
        context = "menu dependency" ∨ ∃ kind : PropertyKind, context = kind.dumpName) ∧
      (dump m).ending ≠ .error (.error (.unrenderable "choice visibility")) ∧
      utf8 (dump m).output <+: utf8 (dump m.replaceUnknown).output := by
  have hending := ending_dump (Model.validate_eq_ok_iff.mp h)
  rw [Model.menus, Menu.descendants_eq_preorder] at hending
  -- a context is that of the first fault, and faults have only these
  have hcontext : ∀ context, (dump m).ending = .error (.error (.unrenderable context)) →
      context = "menu dependency" ∨ ∃ kind : PropertyKind, context = kind.dumpName := by
    intro context hfails
    rcases hfault : (Menu.preorder m.root.children).findSome? (menuFault? m) with _ | fault
    · rw [hending, hfault] at hfails
      cases hfails
    · obtain ⟨menu, -, hmenu⟩ := List.exists_of_findSome?_eq_some hfault
      rw [hending, hfault] at hfails
      cases hfails
      exact context_of_menuFault? hmenu
  refine ⟨?_, hending, hcontext, ?_, Run.utf8_output_isPrefix (writes_dump_isPrefix m)⟩
  · have hok : (dump m).ending = .ok () ↔
        (Menu.preorder m.root.children).findSome? (menuFault? m) = none := by
      rw [hending]
      rcases (Menu.preorder m.root.children).findSome? (menuFault? m) with _ | fault
      · exact iff_of_true rfl rfl
      · exact iff_of_false nofun nofun
    rw [hok, ← Menu.descendants_eq_preorder, List.findSome?_eq_none_iff]
    apply forall_congr'
    intro menu
    rw [Menu.mem_descendants_iff]
    exact imp_congr_right fun _ => menuFault?_eq_none_iff
  · intro hfails
    rcases hcontext _ hfails with heq | ⟨kind, heq⟩
    · exact absurd heq (by decide)
    · revert heq
      cases kind <;> decide

/-- A choice in a menu below another, with a node that is not known in the condition of its
declaration and one in that of its menu, and after it a choice of numbers. -/
def unreadable : Model where
  capabilities := { choiceMembers := .menu }
  symbols := #[
    { name := some "A", kind := .bool,
      properties := [{ kind := .default, expr := some (.not (.symbol (.entry ⟨0⟩))) }] },
    { kind := .tristate, flags := .choice,
      properties := [
        { kind := .prompt, text := some "Pick" },
        { kind := .symbol, visible := some (.and (.symbol (.entry ⟨0⟩)) .unknown) }] },
    { kind := .int, flags := .choice }]
  root := {
    children := [
      { symbol := some ⟨0⟩
        dep := some (.symbol (.entry ⟨0⟩))
        children := [
          { symbol := some ⟨1⟩, dep := some .unknown, choiceMembers := [⟨0⟩] }] },
      { symbol := some ⟨2⟩ }] }

/-- The dump of `unreadable` stops at the condition of its choice, and has written the beginning of
what it would be with the node replaced. -/
theorem unreadable_stops :
    unreadable.validate = .ok () ∧
      (dump unreadable).ending = .error (.error (.unrenderable "symbol")) ∧
      (dump unreadable).ending ≠ .ok () ∧
      utf8 (dump unreadable).output <+: utf8 (dump unreadable.replaceUnknown).output := by
  have hcheck : unreadable.validate = .ok () := by
    rw [Model.validate, Model.menus, Menu.descendants_eq_preorder]
    rfl
  obtain ⟨hok, hfails, -, -, hbegins⟩ := dump_stops hcheck
  refine ⟨hcheck, hfails, ?_, hbegins⟩
  intro hending
  have hchoice := hok.mp hending { symbol := some ⟨2⟩ } (.child (by simp [unreadable]))
  exact (hchoice.1 ⟨2⟩ _ rfl rfl).1 (by decide)

end Kconfig.Dump
