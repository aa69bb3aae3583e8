import Kconfig.Proofs.Condition.Constants
import Kconfig.Proofs.Constraint.Blocks
import Kconfig.Proofs.Constraint.Parts
import Mathlib.Data.List.Forall2

/-!
# Options and their identifiers

An identifier is a prefix and a name in which `_` stands for `&`. So two options have one identifier
exactly if their names are the same up to these two characters (`identifier_eq_iff`), whatever the
prefix, and then they are one option to whoever reads the constraints. Options that are told apart
by more than that have identifiers of their own, in every declaration and wherever a record refers
to them: a line is its parts, one after the other, and the parts that stand for options are the same
text only for one identifier (`Constraint.identifiers_distinct`).

In the boolean dialect an option is written in two ways, by its identifier or as a test of it. The
two are not mixed up unless an identifier begins as a test does, which takes a name with a
parenthesis in it. The logic dialect has but one way.
-/

namespace Kconfig

/-! ## Names that make one identifier -/

/-- Whether two characters are one in identifiers. -/
def CharsCoincide (c d : Char) : Prop :=
  c = d ∨ (c = '&' ∧ d = '_') ∨ (c = '_' ∧ d = '&')

/-- Whether two names are one in identifiers: they are the same up to `&` and `_`. -/
def NamesCoincide (a b : String) : Prop :=
  List.Forall₂ CharsCoincide a.toList b.toList

instance (c d : Char) : Decidable (CharsCoincide c d) :=
  inferInstanceAs (Decidable (c = d ∨ (c = '&' ∧ d = '_') ∨ (c = '_' ∧ d = '&')))

instance (a b : String) : Decidable (NamesCoincide a b) :=
  inferInstanceAs (Decidable (List.Forall₂ CharsCoincide a.toList b.toList))

/-- Two characters coincide just if they are the same once an ampersand is an underscore. -/
theorem charsCoincide_iff {c d : Char} :
    CharsCoincide c d ↔ (if c = '&' then '_' else c) = if d = '&' then '_' else d := by
  unfold CharsCoincide
  by_cases hc : c = '&'
  · by_cases hd : d = '&'
    · simp [hc, hd]
    · simp [hc, hd, eq_comm]
  · by_cases hd : d = '&'
    · simp [hc, hd]
    · simp [hc, hd]

/-- Identifiers are the same exactly for names that are the same up to `&` and `_`. -/
theorem identifier_eq_iff (namePrefix : String) {a b : String} :
    identifier namePrefix a = identifier namePrefix b ↔ NamesCoincide a b := by
  have hcoincide : CharsCoincide = fun c d =>
      (if c = '&' then '_' else c) = if d = '&' then '_' else d :=
    funext₂ fun _ _ => propext charsCoincide_iff
  unfold identifier NamesCoincide
  rw [← String.toList_inj, String.toList_append, String.toList_append, List.append_cancel_left_eq,
    String.toList_ofList, String.toList_ofList, ← List.forall₂_eq_eq_eq, List.forall₂_map_left_iff,
    List.forall₂_map_right_iff, hcoincide]

namespace Printer

variable {p : Printer}

/-- In one role, and in the logic dialect in any two, options are written the same exactly if they
have one identifier. -/
theorem className_option_eq_iff {role role' : Role} {a b : String}
    (h : role = role' ∨ p.dialect = .logic) :
    p.className role (.option a) = p.className role' (.option b) ↔ NamesCoincide a b := by
  rw [← identifier_eq_iff p.namePrefix]
  rcases h with rfl | hlogic
  · unfold className
    cases p.dialect <;> cases role <;> simp [← String.toList_inj]
  · rw [className_option hlogic, className_option hlogic]

end Printer

/-! ## Declarations -/

/-- The options of a model in the order of the table, each with the word for its type. -/
def Model.options (m : Model) : List (String × String) :=
  m.entries.filterMap fun x => x.2.option?

/-- Whether a record declares an option. -/
def Record.isConfig : Record → Bool
  | config .. => true
  | _ => false

namespace Constraint

variable {m : Model} {settings : Settings}

/-- Whether a line declares an option, by its first word. -/
def isDeclaration (line : String) : Bool :=
  "config ".toList <+: line.toList

/-- The line that declares an option. -/
def declarationLine (namePrefix : String) (option : String × String) : String :=
  "config " ++ identifier namePrefix option.1 ++ " " ++ option.2 ++ "\n"

/-- Lines of other records begin with other words. -/
theorem isDeclaration_lineText (p : Printer) (r : Record) :
    isDeclaration (r.lineText p) = r.isConfig := by
  cases r with
  | config | prompt | dep | select | revDep =>
    simp [isDeclaration, Record.lineText, Record.isConfig]
  | default name boolean => cases boolean <;> simp [isDeclaration, Record.lineText, Record.isConfig,
      Record.defaultWord]
  | choice id tristate optional =>
    cases tristate <;> cases optional <;> simp [isDeclaration, Record.lineText, Record.isConfig,
      Record.choiceWord]

/-- A symbol is declared once if it is an option, and not at all if it is none. -/
theorem filter_isConfig_declarations (p : Printer) (s : Symbol) :
    ((Step.written (declarations s)).filter Record.isConfig).map (Record.lineText p) =
      (s.option?.map (declarationLine p.namePrefix)).toList := by
  rcases h : s.option? with _ | ⟨name, type⟩
  · rw [written_declarations_eq_nil (Symbol.option?_eq_none_iff.mp h)]
    rfl
  · obtain ⟨hclass, htype⟩ := Symbol.option?_eq_some_iff.mp h
    obtain ⟨type', htype', hwritten⟩ := written_declarations hclass
    obtain rfl : type = type' := Option.some.inj (htype.symm.trans htype')
    have hmore : ((s.prompts.map fun (q : Property) => Record.prompt name q.visible) ++
        s.defaults.filterMap fun (q : Property) => q.expr.map fun value =>
          Record.default name s.kind.isBoolean value q.visible).filter Record.isConfig = [] := by
      simp only [List.filter_eq_nil_iff, List.forall_mem_append, List.mem_map, List.mem_filterMap,
        Option.map_eq_some_iff]
      constructor
      · rintro r ⟨q, -, rfl⟩
        exact Bool.false_ne_true
      · rintro r ⟨q, -, value, -, rfl⟩
        exact Bool.false_ne_true
    rw [hwritten, List.filter_cons_of_pos rfl, hmore]
    rfl

/-- No rule declares an option. -/
theorem filter_isConfig_rulePlan (m : Model) (settings : Settings) :
    (Step.written (rulePlan m settings)).filter (fun x => x.2.isConfig) = [] := by
  rw [List.filter_eq_nil_iff]
  rintro ⟨id, r⟩ hx
  obtain ⟨s, -, hrule, -⟩ := mem_written_rulePlan hx
  cases r with
  | config => cases hrule
  | prompt | default | choice | dep | select | revDep => exact Bool.false_ne_true

/-- The declarations that are written of a sound model, also if the encoding stops at a choice. -/
theorem filter_isDeclaration_writes (h : m.IsSound) (settings : Settings) :
    (extract m settings).writes.filter isDeclaration =
      m.options.map (declarationLine settings.namePrefix) := by
  have hconfig : isDeclaration ∘ (fun x : SymbolId × Record =>
      x.2.lineText (linePrinter m settings)) = fun x => x.2.isConfig :=
    funext fun x => isDeclaration_lineText _ x.2
  have hwrites : (extract m settings).writes =
      (records m settings).map fun x => x.2.lineText (linePrinter m settings) := by
    rw [writes_eq_attributedLines h, attributedLines, List.map_map]
    rfl
  rw [hwrites, List.filter_map, hconfig, records_eq, List.filter_append, filter_isConfig_rulePlan,
    List.append_nil, declared, List.filter_flatMap, List.map_flatMap, Model.options,
    List.map_filterMap, List.filterMap_eq_flatMap_toList]
  apply List.flatMap_congr
  intro x _
  refine Eq.trans ?_ (filter_isConfig_declarations (linePrinter m settings) x.2)
  rw [List.filter_map, List.map_map]
  rfl

/-- Options have identifiers of their own exactly if no two names are the same up to `&` and `_`. -/
theorem nodup_identifiers_iff {namePrefix : String} {options : List (String × String)} :
    (options.map fun o => identifier namePrefix o.1).Nodup ↔
      (options.map Prod.fst).Pairwise fun a b => ¬ NamesCoincide a b := by
  rw [List.Nodup, List.pairwise_map, List.pairwise_map]
  simp only [ne_eq, identifier_eq_iff]

end Constraint

/-! ## References -/

/-- Looking a reference up does nothing but give what it stands for. -/
theorem Model.classify_eq_of_ending {m : Model} {sym : SymbolRef} {c : SymbolClass}
    (h : (m.classify sym).ending = .ok c) : m.classify sym = pure c := by
  cases sym with
  | truth t =>
    obtain rfl : SymbolClass.truth t.isTrue = c := Except.ok.inj h
    rfl
  | entry id =>
    rcases hs : m.symbol? id with _ | s
    · simp [classify, find, hs, Run.stop, bind] at h
    · rw [classify, find_of_symbol? hs, pure_bind] at h ⊢
      obtain rfl : s.class = c := Except.ok.inj h
      rfl

/-- What a reference is found to stand for is what it stands for. -/
theorem Model.classOf_of_classify {m : Model} {sym : SymbolRef} {c : SymbolClass}
    (h : (m.classify sym).ending = .ok c) : m.classOf sym = c := by
  cases sym with
  | truth t => exact Except.ok.inj h
  | entry id =>
    rcases hs : m.symbol? id with _ | s
    · simp [classify, find, hs, Run.stop, bind] at h
    · rw [classify, find_of_symbol? hs, pure_bind] at h
      obtain rfl : s.class = c := Except.ok.inj h
      simp [classOf, hs]

namespace Printer

/-- A reference that stands for something is written as that. -/
theorem symbol_of_classify (p : Printer) (role : Role) {sym : SymbolRef} {c : SymbolClass}
    (h : (p.model.classify sym).ending = .ok c) :
    p.symbol role sym = pure (p.className role c) := by
  rw [symbol, Model.classify_eq_of_ending h, pure_bind]

/-- The text of a reference that stands for something. -/
theorem tokenText_of_classify (p : Printer) {role : Role} {sym : SymbolRef} {c : SymbolClass}
    (h : (p.model.classify sym).ending = .ok c) :
    p.tokenText (.operand role sym) = p.className role c := by
  rw [tokenText, Model.classOf_of_classify h]

variable {p : Printer}

/-- Whether an identifier begins as the tests of the boolean dialect do. -/
def BeginsAsTest (id : String) : Prop :=
  "(defined ".toList <+: id.toList

instance (id : String) : Decidable (BeginsAsTest id) :=
  inferInstanceAs (Decidable ("(defined ".toList <+: id.toList))

/-- An identifier that is written like a test begins as one. -/
theorem beginsAsTest_of_eq (hp : p.dialect = .boolean) {a b : String}
    (h : p.className .test (.option a) = p.className .plain (.option b)) :
    BeginsAsTest (identifier p.namePrefix b) := by
  simp only [className, hp] at h
  rw [BeginsAsTest, ← h, String.toList_append, String.toList_append, List.append_assoc]
  exact List.prefix_append _ _

/-- Two options written the same are one, unless the identifier of one begins as a test does. -/
theorem namesCoincide_or_beginsAsTest {role role' : Role} {a b : String}
    (h : p.className role (.option a) = p.className role' (.option b)) :
    NamesCoincide a b ∨ p.dialect = .boolean ∧
      (BeginsAsTest (identifier p.namePrefix a) ∨ BeginsAsTest (identifier p.namePrefix b)) := by
  cases hp : p.dialect with
  | logic => exact .inl ((className_option_eq_iff (.inr hp)).mp h)
  | boolean =>
    cases role <;> cases role'
    case test.test | plain.plain => exact .inl ((className_option_eq_iff (.inl rfl)).mp h)
    case test.plain => exact .inr ⟨rfl, .inr (beginsAsTest_of_eq hp h)⟩
    case plain.test => exact .inr ⟨rfl, .inl (beginsAsTest_of_eq hp h.symm)⟩

/-- What the texts say of two options, each written in a role. -/
structure TellsApart (p : Printer) (x y : Role × String) (text text' : String) : Prop where
  /-- In one role, and in the logic dialect in any two, the texts are the same exactly for names that
  are the same up to `&` and `_`. -/
  eq_iff : x.1 = y.1 ∨ p.dialect = .logic → (text = text' ↔ NamesCoincide x.2 y.2)
  /-- A test is the same text as another option only if that begins as a test does. -/
  mixed : text = text' → NamesCoincide x.2 y.2 ∨ p.dialect = .boolean ∧
    (BeginsAsTest (identifier p.namePrefix x.2) ∨ BeginsAsTest (identifier p.namePrefix y.2))

/-- Options are told apart by how they are written. -/
theorem tellsApart_className (p : Printer) (x y : Role × String) :
    p.TellsApart x y (p.className x.1 (.option x.2)) (p.className y.1 (.option y.2)) :=
  ⟨className_option_eq_iff, namesCoincide_or_beginsAsTest⟩

end Printer

/-! ## References in lines -/

/-- The option that a part of a line stands for, if any, and its role there. What a record is about
is written as the side of a comparison is. -/
def Part.option? (m : Model) : Part → Option (Role × String)
  | .sign _ => none
  | .subject name => some (.plain, name)
  | .token (.operand role sym) =>
    match (m.classify sym).ending with
    | .ok (.option name) => some (role, name)
    | _ => none
  | .token _ => none

/-- A part that stands for an option is written as that option is. -/
theorem Printer.partText_of_option? {p : Printer} {part : Part} {x : Role × String}
    (h : part.option? p.model = some x) : p.partText part = p.className x.1 (.option x.2) := by
  cases part with
  | sign text => cases h
  | subject name =>
    obtain rfl := Option.some.inj h
    unfold partText className
    cases p.dialect <;> rfl
  | token t =>
    cases t with
    | operand role sym =>
      rcases hclass : (p.model.classify sym).ending with reason | c
      · simp [Part.option?, hclass] at h
      · cases c with
        | truth value => simp [Part.option?, hclass] at h
        | value name => simp [Part.option?, hclass] at h
        | option name =>
          simp only [Part.option?, hclass, Option.some.injEq] at h
          subst h
          exact p.tokenText_of_classify hclass
    | _ => cases h

namespace Constraint

variable {m : Model} {settings : Settings}

/-- Whether a record is written: in the logic dialect with the constraints, in the boolean dialect
as a dependency of a symbol. -/
def IsWritten (m : Model) (settings : Settings) : Dialect → Record → Prop
  | .logic, r => ∃ id, (id, r) ∈ records m settings
  | .boolean, r => ∃ name, r ∈ Step.written (Listing.deps m settings name)

/-- Everything that a written record of a sound model refers to is there. -/
theorem IsWritten.resolves (h : m.IsSound) {d : Dialect} {r : Record}
    (hr : IsWritten m settings d r) : r.ResolvesIn m := by
  cases d with
  | logic =>
    obtain ⟨id, hr⟩ := hr
    exact records_resolve h settings (id, r) hr
  | boolean =>
    obtain ⟨name, hr⟩ := hr
    exact Listing.deps_resolve h settings name _ (Step.mem_of_mem_written hr)

/-- The options of a checked model are declared, each by its identifier, and identifiers are the
same only for names that are the same up to `&` and `_`. The lines of constraints and of
dependencies are made of parts, each of which the printer writes by itself, and parts that stand for
options are told apart; so are the tokens of any condition, which is written token by token. -/
theorem identifiers_distinct (h : m.validate = .ok ()) (settings : Settings) :
    (extract m settings).writes.filter isDeclaration =
        m.options.map (declarationLine settings.namePrefix) ∧
      ((m.options.map fun o => identifier settings.namePrefix o.1).Nodup ↔
        (m.options.map Prod.fst).Pairwise fun a b => ¬ NamesCoincide a b) ∧
      (extract m settings).writes = (records m settings).map (fun x =>
        Printer.partsText ⟨m, settings.namePrefix, .logic⟩ (x.2.parts .logic)) ∧
      (∀ name, (Listing.writeDeps m settings name).writes =
        (Step.written (Listing.deps m settings name)).map fun r =>
          Printer.partsText ⟨m, settings.namePrefix, .boolean⟩ (r.parts .boolean)) ∧
      ∀ d : Dialect, let p : Printer := ⟨m, settings.namePrefix, d⟩
        (∀ r r', IsWritten m settings d r → IsWritten m settings d r' →
          ∀ part ∈ r.parts d, ∀ part' ∈ r'.parts d, ∀ x y,
            part.option? m = some x → part'.option? m = some y →
            (p.part part).ending = .ok (p.partText part) ∧
              (p.part part').ending = .ok (p.partText part') ∧
              p.TellsApart x y (p.partText part) (p.partText part')) ∧
        (∀ sym sym' a b, (m.classify sym).ending = .ok (.option a) →
          (m.classify sym').ending = .ok (.option b) → ∀ role role',
            p.token (.operand role sym) = pure (p.tokenText (.operand role sym)) ∧
              p.token (.operand role' sym') = pure (p.tokenText (.operand role' sym')) ∧
              p.TellsApart (role, a) (role', b) (p.tokenText (.operand role sym))
                (p.tokenText (.operand role' sym'))) ∧
        ∀ enclosing e, m.ResolvesAll e → (p.render enclosing e).ending =
          .ok (String.join ((d.layout enclosing e).map p.tokenText)) ∧
          ∀ t ∈ d.layout enclosing e, (p.token t).ending = .ok (p.tokenText t) := by
  have hsound := Model.validate_eq_ok_iff.mp h
  refine ⟨filter_isDeclaration_writes hsound settings, nodup_identifiers_iff,
    writes_eq_parts hsound settings, Listing.writes_eq_parts hsound settings, ?_⟩
  intro d p
  refine ⟨?_, ?_, ?_⟩
  -- a part that stands for an option is written as its class is, wherever it stands
  · intro r r' hr hr' part hpart part' hpart' x y hx hy
    refine ⟨Printer.part_of_resolves (hr.resolves hsound) part hpart,
      Printer.part_of_resolves (hr'.resolves hsound) part' hpart', ?_⟩
    have htext : p.partText part = p.className x.1 (.option x.2) :=
      Printer.partText_of_option? hx
    have htext' : p.partText part' = p.className y.1 (.option y.2) :=
      Printer.partText_of_option? hy
    rw [htext, htext']
    exact p.tellsApart_className x y
  · intro sym sym' a b ha hb role role'
    have htext : p.tokenText (.operand role sym) = p.className role (.option a) :=
      p.tokenText_of_classify ha
    have htext' : p.tokenText (.operand role' sym') = p.className role' (.option b) :=
      p.tokenText_of_classify hb
    rw [htext, htext']
    exact ⟨p.symbol_of_classify role ha, p.symbol_of_classify role' hb,
      p.tellsApart_className (role, a) (role', b)⟩
  · intro enclosing e he
    rw [p.render_of_resolves enclosing he]
    refine ⟨rfl, ?_⟩
    intro t ht
    rw [p.token_of_isOf he (d.isOf_layout enclosing e t ht)]

/-- Two options whose names differ by more than `&` and `_`, one of which depends on the other. -/
def apartOptions : Model where
  symbols := #[{ name := some "A&B", kind := .bool },
    { name := some "A_C", kind := .int, dirDep := some (.symbol (.entry ⟨0⟩)) }]

/-- The two options have identifiers of their own, and are told apart in conditions, whatever the
dialect and the roles. -/
theorem apartOptions_identifiers_distinct :
    apartOptions.validate = .ok () ∧
      (apartOptions.options.map fun o => identifier "CONFIG_" o.1) =
        ["CONFIG_A_B", "CONFIG_A_C"] ∧
      ((extract apartOptions {}).writes.filter isDeclaration).length = 2 ∧
      (apartOptions.options.map fun o => identifier "CONFIG_" o.1).Nodup ∧
      ∀ d role role', Printer.tokenText ⟨apartOptions, "CONFIG_", d⟩ (.operand role (.entry ⟨0⟩)) ≠
        Printer.tokenText ⟨apartOptions, "CONFIG_", d⟩ (.operand role' (.entry ⟨1⟩)) := by
  have hcheck : apartOptions.validate = .ok () := by
    rw [Model.validate, Model.menus, Menu.descendants_eq_preorder]
    rfl
  obtain ⟨hdeclared, hnodup, -, -, hparts⟩ := identifiers_distinct hcheck {}
  refine ⟨hcheck, rfl, ?_, hnodup.mpr (by decide), ?_⟩
  · rw [hdeclared]
    rfl
  · intro d role role' heq
    obtain ⟨-, hreferences, -⟩ := hparts d
    obtain ⟨-, -, happart⟩ := hreferences (.entry ⟨0⟩) (.entry ⟨1⟩) "A&B" "A_C" rfl rfl role role'
    have hnames : ¬ NamesCoincide "A&B" "A_C" := by decide
    have hfirst : ¬ Printer.BeginsAsTest (identifier "CONFIG_" "A&B") := by decide
    have hsecond : ¬ Printer.BeginsAsTest (identifier "CONFIG_" "A_C") := by decide
    rcases happart.mixed heq with hsame | ⟨-, hbegins | hbegins⟩
    · exact hnames hsame
    · exact hfirst hbegins
    · exact hsecond hbegins

/-- Two options that differ in one character, and one with a name like the test of another. -/
def mergedOptions : Model where
  symbols := #[
    { name := some "A&B", kind := .bool },
    { name := some "A_B", kind := .bool },
    { name := some "(defined A_B)", kind := .int }]

/-- Options of different names are declared by one identifier, and are one in conditions. Without a
prefix, a test is written like an option that is compared. -/
theorem mergedOptions_identifiers :
    mergedOptions.validate = .ok () ∧ (mergedOptions.options.map Prod.fst).Nodup ∧
      (extract mergedOptions {}).writes =
        ["config CONFIG_A_B bool\n", "config CONFIG_A_B bool\n",
          "config CONFIG_(defined A_B) number\n", "dep CONFIG_(defined A_B) (1)\n"] ∧
      (∀ d role, Printer.symbol ⟨mergedOptions, "CONFIG_", d⟩ role (.entry ⟨0⟩) =
        Printer.symbol ⟨mergedOptions, "CONFIG_", d⟩ role (.entry ⟨1⟩)) ∧
      Printer.symbol ⟨mergedOptions, "", .boolean⟩ .test (.entry ⟨1⟩) =
        Printer.symbol ⟨mergedOptions, "", .boolean⟩ .plain (.entry ⟨2⟩) := by
  refine ⟨?_, by decide, rfl, ?_, rfl⟩
  · rw [Model.validate, Model.menus, Menu.descendants_eq_preorder]
    rfl
  · intro d role
    cases d <;> cases role <;> rfl

end Constraint

end Kconfig
