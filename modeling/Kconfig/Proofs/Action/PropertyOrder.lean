import Kconfig.Action.Run
import Kconfig.Proofs.Constraint.ChoiceShape
import Kconfig.Proofs.Model.PropertyOrder

/-!
# The order of properties makes no difference

The listings, the encoding and the dependencies of a symbol read its properties one kind at a time.
So two models that differ only in the order among properties of different kinds come to the same:
the same bytes, the same messages and the same ending (`Action.run_eq_of_rearranged`). Nothing is
asked of the models beyond that; they may be unsound.

The dump is not among them, for it shows the properties in the order in which they were read.
-/

namespace Kconfig

variable {m m' : Model}

/-! ## Listings -/

namespace Listing

/-- The names that a test selects are the same after a rearrangement, if the test does not see one.
-/
theorem namesWhere_eq_of_rearranged (h : m.IsRearranged m') {test : String → Symbol → Bool}
    (htest : ∀ name s s', s.IsRearranged s' → test name s' = test name s) :
    namesWhere m' test = namesWhere m test :=
  h.namedEntries_congr test (fun name _ => name) htest fun _ _ _ _ => rfl

/-- The menu symbols of a rearranged model are those of the model. -/
theorem menuSymbols_eq_of_rearranged (h : m.IsRearranged m') : menuSymbols m' = menuSymbols m := by
  unfold menuSymbols
  rw [h.menus_eq]
  apply List.flatMap_congr
  intro menu _
  rcases menu.symbol with _ | id
  · rfl
  · rcases Model.symbol?_cases_of_size h.size id with ⟨hs, hs'⟩ | ⟨s, s', hs, hs'⟩
    · simp only [hs, hs']
    · simp only [hs, hs', (h.symbol id s s' hs hs').agrees.named]

/-- What is written of a symbol are its two dependencies. -/
theorem deps_eq_of_rearranged (h : m.IsRearranged m') (settings : Settings) (name : String) :
    deps m' settings name = deps m settings name := by
  have hdeps := h.lookup_congr (fun s => (s.dirDep, s.revDep))
    (fun s s' hs => by rw [hs.dirDep, hs.revDep]) name
  unfold deps
  rcases hfound : m.lookup name with _ | ⟨id, s⟩
  · rw [hfound, Option.map_none, Option.map_eq_none_iff] at hdeps
    rw [hdeps]
  · rw [hfound, Option.map_some, Option.map_eq_some_iff] at hdeps
    obtain ⟨⟨id', s'⟩, hfound', heq⟩ := hdeps
    obtain ⟨hdirDep, hrevDep⟩ : s'.dirDep = s.dirDep ∧ s'.revDep = s.revDep := Prod.mk.inj heq
    simp only [hfound', hdirDep, hrevDep]

end Listing

/-! ## The encoding -/

namespace Constraint

/-- The commands that write the encoding of a rearranged model are those of the model. -/
theorem encoding_eq_of_rearranged (h : m.IsRearranged m') (settings : Settings) :
    encoding m' settings = encoding m settings := by
  unfold encoding
  rw [h.size]
  refine congrArg₂ (· ++ ·) (congrArg (List.cons _) ?_) ?_
  · apply Model.flatMap_entries_congr h.size
    intro id s s' hs hs'
    exact declarations_eq_of_agrees (h.symbol id s s' hs hs').agrees
  · apply Model.flatMap_entries_congr h.size
    intro id s s' hs hs'
    have hrearranged := h.symbol id s s' hs hs'
    exact rules_eq_of_agrees hrearranged.agrees (by rw [h.capabilities])
      (fun _ => h.choiceMembers_eq hrearranged id) settings

end Constraint

/-! ## Actions -/

namespace Action

/-- Every action but the dump does the same for models that differ only in the order among
properties of different kinds. -/
theorem run_eq_of_rearranged (h : m.IsRearranged m') {action : Action} (haction : action ≠ .dump)
    (settings : Settings) : action.run m' settings = action.run m settings := by
  have hline : ∀ d, Record.line ⟨m', settings.namePrefix, d⟩ =
      Record.line ⟨m, settings.namePrefix, d⟩ := fun d =>
    Record.line_withModel (p := ⟨m, settings.namePrefix, d⟩) h.classify_eq
  have houtput : action.output m' settings = action.output m settings := by
    cases action with
    | configs =>
      have hnames : Listing.configs m' = Listing.configs m :=
        Listing.namesWhere_eq_of_rearranged h fun _ _ _ _ => rfl
      rw [output, output, hnames]
    | kconfigs =>
      have hnames : Listing.kconfigs m' = Listing.kconfigs m :=
        Listing.namesWhere_eq_of_rearranged h fun _ _ _ hs => by rw [hs.propertiesOf]
      rw [output, output, hnames]
    | menuSymbols => rw [output, output, Listing.menuSymbols_eq_of_rearranged h]
    | defaults =>
      have hnames : Listing.defaults m' settings = Listing.defaults m settings :=
        Listing.namesWhere_eq_of_rearranged h fun _ _ _ hs => by rw [hs.isDefault]
      rw [output, output, hnames]
    | extract =>
      show Step.runAll _ _ = Step.runAll _ _
      rw [Constraint.encoding_eq_of_rearranged h, hline]
    | deps name =>
      show Step.runAll _ _ = Step.runAll _ _
      rw [Listing.deps_eq_of_rearranged h, hline]
    | dump => exact absurd rfl haction
  rw [run, run, houtput]

/-- A choice with two prompts, two lists of members and a default in between. -/
def promptsFirst : Symbol where
  kind := .bool
  flags := .choice
  properties := [
    { kind := .prompt, text := some "Pick one", visible := some (.symbol (.entry ⟨1⟩)) },
    { kind := .prompt, text := some "Pick another" },
    { kind := .choice, expr := some (.listLast (.entry ⟨1⟩)) },
    { kind := .default, expr := some (.symbol (.entry ⟨1⟩)) },
    { kind := .choice, expr := some .unknown }]

/-- The same with the properties of other kinds in front of the prompts. -/
def promptsLast : Symbol where
  kind := .bool
  flags := .choice
  properties := [
    { kind := .default, expr := some (.symbol (.entry ⟨1⟩)) },
    { kind := .choice, expr := some (.listLast (.entry ⟨1⟩)) },
    { kind := .prompt, text := some "Pick one", visible := some (.symbol (.entry ⟨1⟩)) },
    { kind := .choice, expr := some .unknown },
    { kind := .prompt, text := some "Pick another" }]

/-- A model with a choice and its member. -/
def withChoice (choice : Symbol) : Model where
  symbols := #[choice, { name := some "A", kind := .bool }]

/-- The rearrangement that puts the prompts of `promptsFirst` behind its other properties, where the
model is accepted, changes nothing that `extract` does. -/
theorem promptsLast_run_eq :
    (withChoice promptsFirst).validate = .ok () ∧
      (withChoice promptsFirst).IsRearranged (withChoice promptsLast) ∧
      ∀ settings, Action.extract.run (withChoice promptsLast) settings =
        Action.extract.run (withChoice promptsFirst) settings := by
  have hcheck : (withChoice promptsFirst).validate = .ok () := by
    rw [Model.validate, Model.menus, Menu.descendants_eq_preorder]
    rfl
  have hchoice : promptsFirst.IsRearranged promptsLast := by
    refine ⟨rfl, rfl, rfl, rfl, rfl, ?_⟩
    intro kind
    cases kind <;> rfl
  have hrearranged : (withChoice promptsFirst).IsRearranged (withChoice promptsLast) := by
    refine Model.IsRearranged.of_entries rfl rfl ?_
    exact .cons hchoice (.cons (.refl _) .nil)
  exact ⟨hcheck, hrearranged, run_eq_of_rearranged hrearranged (by decide)⟩

end Action

end Kconfig
