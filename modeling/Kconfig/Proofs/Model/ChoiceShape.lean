import Kconfig.Model.Validation
import Kconfig.Proofs.Expr.Chain
import Kconfig.Proofs.Menu.Preorder
import Kconfig.Proofs.Model.Agreement
import Mathlib.Data.List.Forall2

/-!
# Models that differ in where the members of choices are

A model that lists the members of its choices in menus can be told with properties instead. The two
have the same menus, and their tables have symbols that differ only in `choice` properties
(`Symbol.AgreesOutsideChoice`). How the properties of a choice come by the new one is left open
(`Model.Reshaped`).

What a reference stands for is the same in both (`Model.Reshaped.classify_eq`). The chain of some
members has these members again (`Expr.IsChainOf.members_eq`), so a symbol whose only `choice`
property holds the chain has them where the other model has them in a menu.
-/

namespace Kconfig

/-! ## Symbols -/

/-- A `choice` property is of no other kind. -/
theorem Property.filter_singleton_eq_nil {p : Property} (h : p.kind = .choice)
    {kind : PropertyKind} (hkind : kind ≠ .choice) :
    [p].filter (fun p => p.kind = kind) = [] := by
  rw [List.filter_singleton, h, decide_eq_false (Ne.symm hkind)]
  rfl

namespace Symbol

/-- Whether two symbols are the same but for their `choice` properties and the order among
properties of different kinds. -/
structure AgreesOutsideChoice (s s' : Symbol) : Prop where
  name : s'.name = s.name
  kind : s'.kind = s.kind
  flags : s'.flags = s.flags
  revDep : s'.revDep = s.revDep
  dirDep : s'.dirDep = s.dirDep
  propertiesOf : ∀ kind, kind ≠ .choice → s'.propertiesOf kind = s.propertiesOf kind

namespace AgreesOutsideChoice

variable {s s' : Symbol}

/-- A symbol agrees with itself. -/
theorem refl (s : Symbol) : s.AgreesOutsideChoice s :=
  ⟨rfl, rfl, rfl, rfl, rfl, fun _ _ => rfl⟩

/-- Symbols that agree but for their members have the same head. -/
theorem head (h : s.AgreesOutsideChoice s') : s.SameHead s' :=
  ⟨h.name, h.kind, h.flags⟩

/-- Symbols that agree but for their members have the same name. -/
theorem named (h : s.AgreesOutsideChoice s') : s'.named = s.named :=
  h.head.named

/-- Symbols that agree but for their members are choices both, or neither is. -/
theorem isChoice (h : s.AgreesOutsideChoice s') : s'.isChoice = s.isChoice :=
  h.head.isChoice

/-- Symbols that agree but for their members are constants both, or neither is. -/
theorem isConstant (h : s.AgreesOutsideChoice s') : s'.isConstant = s.isConstant :=
  h.head.isConstant

/-- Symbols that agree but for their members are of the same class. -/
theorem class_eq (h : s.AgreesOutsideChoice s') : s'.class = s.class :=
  h.head.class_eq

/-- Symbols that agree but for their members have the same prompts. -/
theorem prompts (h : s.AgreesOutsideChoice s') : s'.prompts = s.prompts :=
  h.propertiesOf .prompt nofun

/-- Symbols that agree but for their members have the same defaults. -/
theorem defaults (h : s.AgreesOutsideChoice s') : s'.defaults = s.defaults :=
  h.propertiesOf .default nofun

/-- Symbols that agree but for their members select the same. -/
theorem selects (h : s.AgreesOutsideChoice s') : s'.selects = s.selects :=
  h.propertiesOf .select nofun

/-- A `choice` property more makes no difference. -/
theorem withProperty {p : Property} (h : p.kind = .choice) :
    s.AgreesOutsideChoice (s.withProperty p) := by
  refine ⟨rfl, rfl, rfl, rfl, rfl, ?_⟩
  intro kind hkind
  show (s.properties ++ [p]).filter (fun p => p.kind = kind) = _
  rw [List.filter_append, Property.filter_singleton_eq_nil h hkind, List.append_nil]
  rfl

end AgreesOutsideChoice

/-- Whether `s'` is `s` without its `choice` properties and, if there are members, with one that
holds their chain, somewhere among the others. -/
def ListsMembers (members : List SymbolRef) (s s' : Symbol) : Prop :=
  ∃ before after added,
    s.properties.filter (fun p => p.kind ≠ .choice) = before ++ after ∧
      s' = { s with properties := before ++ added ++ after } ∧
        (members = [] → added = []) ∧
          (members ≠ [] →
            ∃ p, added = [p] ∧ p.kind = .choice ∧ p.expr = Expr.chain? members)

variable {members : List SymbolRef} {s s' : Symbol}

/-- No property but the new one says anything about members. -/
theorem ListsMembers.agrees (h : s.ListsMembers members s') : s.AgreesOutsideChoice s' := by
  obtain ⟨before, after, added, hothers, rfl, hnone, hsome⟩ := h
  refine ⟨rfl, rfl, rfl, rfl, rfl, ?_⟩
  intro kind hkind
  have hadded : added.filter (fun p => p.kind = kind) = [] := by
    by_cases hmembers : members = []
    · rw [hnone hmembers, List.filter_nil]
    · obtain ⟨p, rfl, hp, -⟩ := hsome hmembers
      exact Property.filter_singleton_eq_nil hp hkind
  calc (before ++ added ++ after).filter (fun p => p.kind = kind)
      = (before ++ after).filter fun p => p.kind = kind := by
        rw [List.filter_append, List.filter_append, hadded, List.append_nil, List.filter_append]
    _ = s.properties.filter fun p => p.kind = kind := by
        rw [← hothers, List.filter_filter]
        apply List.filter_congr
        intro p _
        by_cases hp : p.kind = kind
        · simp [hp, hkind]
        · simp [hp]

/-- The first `choice` property holds the chain of the members. -/
theorem ListsMembers.propertiesOf_choice (h : s.ListsMembers members s') :
    ((s'.propertiesOf .choice).head?.bind Property.expr) = Expr.chain? members := by
  obtain ⟨before, after, added, hothers, rfl, hnone, hsome⟩ := h
  have hfilter : (before ++ after).filter (fun p => p.kind = .choice) = [] := by
    rw [← hothers, List.filter_filter, List.filter_eq_nil_iff]
    simp
  rw [List.filter_append, List.append_eq_nil_iff] at hfilter
  have hchoice : (before ++ added ++ after).filter (fun p => p.kind = .choice) =
      added.filter fun p => p.kind = .choice := by
    rw [List.filter_append, List.filter_append, hfilter.1, hfilter.2, List.nil_append,
      List.append_nil]
  show (((before ++ added ++ after).filter fun p => p.kind = .choice).head?.bind Property.expr) = _
  rw [hchoice]
  by_cases hmembers : members = []
  · rw [hnone hmembers, hmembers]
    rfl
  · obtain ⟨p, rfl, hp, hexpr⟩ := hsome hmembers
    simp [hp, hexpr]

end Symbol

/-! ## Models -/

namespace Model

/-- Whether a model has the members of choices in properties where another has them in menus. Of
the tables it is only said how the symbols of an id differ. -/
structure Reshaped (R : SymbolId → Symbol → Symbol → Prop) (m m' : Model) : Prop where
  fromMenus : m.capabilities.choiceMembers = .menu
  toProperties : m'.capabilities.choiceMembers = .property
  root : m'.root = m.root
  size : m'.symbols.size = m.symbols.size
  symbol : ∀ id s s', m.symbol? id = some s → m'.symbol? id = some s' → R id s s'

variable {R : SymbolId → Symbol → Symbol → Prop} {m m' : Model}

/-- The members of a choice, where they are in properties. -/
theorem choiceMembers_of_property (h : m.capabilities.choiceMembers = .property) (id : SymbolId)
    (s : Symbol) :
    m.choiceMembers id s =
      ((((s.propertiesOf .choice).head?.bind Property.expr).map Expr.members).getD []) := by
  unfold choiceMembers
  rw [h]
  rcases (s.propertiesOf .choice).head? with _ | p <;> rfl

namespace Reshaped

/-- Tables that are related entry by entry. -/
theorem of_entries (hmenu : m.capabilities.choiceMembers = .menu)
    (hproperty : m'.capabilities.choiceMembers = .property) (hroot : m'.root = m.root)
    (h : List.Forall₂ (fun x x' => R x.1 x.2 x'.2) m.entries m'.entries) : m.Reshaped R m' := by
  obtain ⟨hsize, hsymbol⟩ := symbol?_of_forall₂_entries h
  exact ⟨hmenu, hproperty, hroot, hsize, hsymbol⟩

/-- An id leads to symbols in both or in neither. -/
theorem symbol?_cases (h : m.Reshaped R m') (id : SymbolId) :
    (m.symbol? id = none ∧ m'.symbol? id = none) ∨
      ∃ s s', m.symbol? id = some s ∧ m'.symbol? id = some s' ∧ R id s s' := by
  rcases symbol?_cases_of_size h.size id with hnone | ⟨s, s', hs, hs'⟩
  · exact .inl hnone
  · exact .inr ⟨s, s', hs, hs', h.symbol id s s' hs hs'⟩

/-- The two agree about every id. -/
theorem agreesAt (h : m.Reshaped R m')
    (hR : ∀ id s s', R id s s' → s.AgreesOutsideChoice s') (id : SymbolId) : m.AgreesAt m' id := by
  rcases h.symbol?_cases id with ⟨hs, hs'⟩ | ⟨s, s', hs, hs', hrelated⟩
  · exact .absent hs hs'
  · exact .present hs hs' (hR id s s' hrelated).head

/-- A reference stands for the same in both. -/
theorem classify_eq (h : m.Reshaped R m')
    (hR : ∀ id s s', R id s s' → s.AgreesOutsideChoice s') : m'.classify = m.classify :=
  funext fun _ => classify_eq_of_agreesAt fun id _ => h.agreesAt hR id

/-- A choice of which the properties list the members of the menu has the same members in both. -/
theorem choiceMembers_eq (h : m.Reshaped R m') {id : SymbolId} {s s' : Symbol}
    (hs : s.ListsMembers (m.choiceMembers id s) s') :
    m'.choiceMembers id s' = m.choiceMembers id s := by
  rw [choiceMembers_of_property h.toProperties, hs.propertiesOf_choice]
  rcases hchain : Expr.chain? (m.choiceMembers id s) with _ | e
  · exact (Expr.chain?_eq_none_iff.mp hchain).symm
  · exact (Expr.chain?_eq_some_iff.mp hchain).members_eq

end Reshaped

/-! ## A model with choices in menus -/

/-- A choice that two menus declare, with a `choice` property that says nothing of its members. -/
def declaredTwice : Symbol where
  kind := .bool
  flags := .choice
  properties := [
    { kind := .choice, expr := some (.listLast (.entry ⟨3⟩)) },
    { kind := .prompt, text := some "Pick one" },
    { kind := .symbol, visible := some (.compare .less (.entry ⟨1⟩) (.entry ⟨2⟩)) }]

/-- A choice that no menu declares. -/
def undeclared : Symbol where
  kind := .tristate
  flags := .choice
  properties := [{ kind := .choice, expr := some (.listLast (.entry ⟨1⟩)) }]

/-- A model with both choices, of which one has members. -/
def menuChoices : Model where
  capabilities := { choiceMembers := .menu }
  symbols := #[declaredTwice, { name := some "A", kind := .bool },
    { name := some "B", kind := .bool }, undeclared]
  root := {
    children := [
      { symbol := some ⟨0⟩, choiceMembers := [⟨1⟩, ⟨2⟩],
        children := [{ symbol := some ⟨1⟩ }, { symbol := some ⟨2⟩ }] },
      { symbol := some ⟨0⟩, choiceMembers := [⟨2⟩] }] }

/-- The menus of `menuChoices` are those below its root, each before its children. -/
theorem menus_menuChoices : menuChoices.menus = Menu.preorder menuChoices.root.children :=
  Menu.descendants_eq_preorder menuChoices.root

/-- The model `menuChoices` is accepted. -/
theorem validate_menuChoices : menuChoices.validate = .ok () := by
  rw [validate, menus_menuChoices]
  rfl

/-- The first menu counts. -/
theorem choiceMembers_declaredTwice (s : Symbol) :
    menuChoices.choiceMembers ⟨0⟩ s = [.entry ⟨1⟩, .entry ⟨2⟩] := by
  rw [choiceMembers, firstMenu, menus_menuChoices]
  rfl

/-- The choice that no menu declares has no members. -/
theorem choiceMembers_undeclared : menuChoices.choiceMembers ⟨3⟩ undeclared = [] := by
  rw [choiceMembers, firstMenu, menus_menuChoices]
  rfl

end Model

end Kconfig
