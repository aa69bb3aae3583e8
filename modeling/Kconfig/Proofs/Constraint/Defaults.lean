import Kconfig.Action.Run
import Kconfig.Proofs.Constraint.Blocks

/-!
# Defaults in the listing and in the encoding

The listing of defaults goes by the forms of expressions: a symbol is listed if it has no prompt, if
its reverse dependency is a tautology, and if one of its defaults is `y` or `m` under a condition
that is a tautology (`Symbol.isDefault_iff`). The encoding puts the same expressions into text. Both
come to the same (`Constraint.defaults_agree`): of a listed option the encoding says that it is on,
whatever the others are, and neither that the user can set it nor, unless that is always so, that
something selects it.

A default without a value counts for the listing and has no record. So the defaults are asked to
have values.
-/

namespace Kconfig

/-! ## Tautologies -/

/-- An expression is yes just if it is the constant. -/
theorem Expr.isYes_iff {e : Expr} : e.isYes ↔ e = .symbol (.truth .yes) := by
  unfold isYes
  split
  · exact iff_of_true rfl rfl
  · next hne => exact iff_of_false nofun hne

/-- An expression is mod just if it is the constant. -/
theorem Expr.isMod_iff {e : Expr} : e.isMod ↔ e = .symbol (.truth .mod) := by
  unfold isMod
  split
  · exact iff_of_true rfl rfl
  · next hne => exact iff_of_false nofun hne

/-- What it is to be on by default. -/
theorem Symbol.isDefault_iff {s : Symbol} :
    s.isDefault ↔ s.prompts = [] ∧ isTautology s.revDep ∧
      ∃ p ∈ s.defaults, isTautology p.visible ∧ ∀ value ∈ p.expr, value.isYes ∨ value.isMod := by
  unfold isDefault
  rw [Bool.and_eq_true, Bool.and_eq_true, List.isEmpty_iff, List.any_eq_true, and_assoc]
  refine and_congr_right' (and_congr_right' (exists_congr fun p => and_congr_right' ?_))
  rw [Bool.and_eq_true]
  apply and_congr_right'
  rcases p.expr with _ | value
  · exact iff_of_true rfl nofun
  · simp

namespace Printer

variable (p : Printer)

/-- A constant is written as a truth value. -/
theorem exprText_truth (t : Tristate) :
    p.exprText (.symbol (.truth t)) = if t.isTrue then "1" else "0" := by
  cases t <;> rfl

/-- The values by which the listing goes are written as true. -/
theorem exprText_of_isYes_or_isMod {e : Expr} (h : e.isYes ∨ e.isMod) : p.exprText e = "1" := by
  rcases h with h | h
  · rw [Expr.isYes_iff.mp h]
    exact p.exprText_truth .yes
  · rw [Expr.isMod_iff.mp h]
    exact p.exprText_truth .mod

/-- A condition that always holds is written as the digit 1. -/
theorem conditionText_of_isTautology {e : Option Expr} (h : isTautology e) :
    p.conditionText e = "1" := by
  rcases e with _ | e
  · rfl
  · exact p.exprText_of_isYes_or_isMod (.inl h)

end Printer

/-! ## The listing -/

namespace Listing

variable {m : Model} {settings : Settings}

/-- The entries that are listed as defaults, with their names. -/
def defaultEntries (m : Model) (settings : Settings) : List (SymbolId × String × Symbol) :=
  m.namedEntries.filter fun x => x.2.2.isDefault && !settings.isForcedOff x.2.1

/-- The listing of defaults has the named symbols of the table that are on by default and are not
forced off. -/
theorem mem_defaultEntries_iff {id : SymbolId} {name : String} {s : Symbol} :
    (id, name, s) ∈ defaultEntries m settings ↔
      m.symbol? id = some s ∧ s.named = some name ∧ s.isDefault ∧ ¬ settings.isForcedOff name := by
  unfold defaultEntries
  rw [List.mem_filter, Model.mem_namedEntries_iff]
  simp [and_assoc]

/-- Names are written one to a line. -/
theorem writes_writeNames (names : List String) :
    (writeNames (names.map .write)).writes = names.map (· ++ "\n") := by
  have htexts : List.Forall₂ (fun name line => (pure (name ++ "\n") : Run String).ending = .ok line)
      (Step.written (names.map .write)) (writeNames (names.map .write)).writes :=
    (Step.runAll_of_texts fun _ _ => Run.isQuiet_pure _).1
  rw [Step.written_map_write] at htexts
  apply Constraint.eq_map_of_forall₂ htexts
  intro name _ line hline
  exact (Except.ok.inj hline).symm

/-- The listing has a line for each of the entries. -/
theorem writes_defaults (m : Model) (settings : Settings) :
    (writeNames ((defaults m settings).map .write)).writes =
      (defaultEntries m settings).map fun x => x.2.1 ++ "\n" := by
  rw [writes_writeNames, defaults, namesWhere, List.map_map]
  rfl

end Listing

/-! ## The lines of a symbol -/

namespace Record

/-- The first word of a record. -/
def word : Record → String
  | config .. => "config"
  | prompt .. => "prompt"
  | default _ boolean _ _ => defaultWord boolean
  | choice _ tristate optional _ _ _ => choiceWord tristate optional
  | dep .. => "dep"
  | select .. => "select"
  | revDep .. => "rev_dep"

/-- Only a prompt begins with the word for prompts. -/
theorem exists_of_word_eq_prompt {r : Record} (h : r.word = "prompt") :
    ∃ name visible, r = .prompt name visible := by
  cases r with
  | prompt name visible => exact ⟨name, visible, rfl⟩
  | config | dep | select | revDep => simp [word] at h
  | default _ boolean => cases boolean <;> simp [word, defaultWord] at h
  | choice _ tristate optional => cases tristate <;> cases optional <;> simp [word, choiceWord] at h

/-- Only a reverse dependency begins with the word for it. -/
theorem exists_of_word_eq_revDep {r : Record} (h : r.word = "rev_dep") :
    ∃ name condition, r = .revDep name condition := by
  cases r with
  | revDep name condition => exact ⟨name, condition, rfl⟩
  | config | prompt | dep | select => simp [word] at h
  | default _ boolean => cases boolean <;> simp [word, defaultWord] at h
  | choice _ tristate optional => cases tristate <;> cases optional <;> simp [word, choiceWord] at h

end Record

namespace Constraint

variable {m : Model} {settings : Settings} {id : SymbolId} {s : Symbol}

/-- The first word of a line, which ends at a blank or at a bar. -/
def lineWord (line : String) : String :=
  String.ofList (line.toList.takeWhile fun c => c ≠ ' ' ∧ c ≠ '|')

/-- The first word of a line tells what kind of record was written. -/
theorem lineWord_lineText (p : Printer) (r : Record) : lineWord (r.lineText p) = r.word := by
  cases r with
  | config | prompt | dep | select | revDep => simp [lineWord, Record.lineText, Record.word]
  | default _ boolean =>
    cases boolean <;> simp [lineWord, Record.lineText, Record.word, Record.defaultWord]
  | choice _ tristate optional members =>
    -- the bar comes at once if the choice has no members
    cases tristate <;> cases optional <;> cases members <;>
      simp [lineWord, Record.lineText, Record.word, Record.choiceWord]

/-- The lines that an encoding writes for one symbol. -/
def linesOf (m : Model) (settings : Settings) (id : SymbolId) : List String :=
  ((attributedLines m settings).filter fun x => x.1 = id).map Prod.snd

/-- The lines of a symbol are those of its records. -/
theorem mem_linesOf_iff {line : String} :
    line ∈ linesOf m settings id ↔
      ∃ r, (id, r) ∈ records m settings ∧ r.lineText (linePrinter m settings) = line := by
  unfold linesOf attributedLines
  simp only [List.mem_map, List.mem_filter, decide_eq_true_eq]
  constructor
  · rintro ⟨_, ⟨⟨⟨id', r⟩, hr, rfl⟩, rfl⟩, rfl⟩
    exact ⟨r, hr, rfl⟩
  · rintro ⟨r, hr, rfl⟩
    exact ⟨_, ⟨⟨(id, r), hr, rfl⟩, rfl⟩, rfl⟩

/-- The line of a default that is true under no condition. -/
theorem lineText_default_of_isTautology (p : Printer) (name : String) {value : Expr}
    (hvalue : value.isYes ∨ value.isMod) {visible : Option Expr} (hvisible : isTautology visible) :
    (Record.default name true value visible).lineText p =
      "def_bool " ++ identifier p.namePrefix name ++ " 1|(1)\n" := by
  rw [Record.lineText, p.exprText_of_isYes_or_isMod hvalue, p.conditionText_of_isTautology hvisible]
  simp [Record.defaultWord, String.append_assoc]

/-- The line of a reverse dependency that always holds. -/
theorem lineText_revDep_of_isTautology (p : Printer) (name : String) {condition : Option Expr}
    (h : isTautology condition) :
    (Record.revDep name condition).lineText p =
      "rev_dep " ++ identifier p.namePrefix name ++ " (1)\n" := by
  rw [Record.lineText, p.conditionText_of_isTautology h]
  simp [String.append_assoc]

/-! ## The records of a symbol -/

section

variable {name : String} (hs : m.symbol? id = some s) (hclass : s.class = .option name)

include hs

/-- What is written for a symbol is in one of its two plans. -/
theorem mem_plan_of_mem_records {r : Record} (h : (id, r) ∈ records m settings) :
    r ∈ Step.written (declarations s) ∨ .write r ∈ rules m settings id s := by
  obtain ⟨s', hs', hplan⟩ := exists_plan_of_mem_records h
  obtain rfl : s = s' := Option.some.inj (hs.symm.trans hs')
  exact hplan

include hclass

/-- Every default that has a value has a record: the first pass gets to every symbol. -/
theorem default_mem_records {p : Property} (hp : p ∈ s.defaults) {value : Expr}
    (hvalue : p.expr = some value) :
    (id, .default name s.kind.isBoolean value p.visible) ∈ records m settings := by
  obtain ⟨type, -, hwritten⟩ := written_declarations hclass
  have hmem : .default name s.kind.isBoolean value p.visible ∈ Step.written (declarations s) := by
    rw [hwritten, List.mem_cons, List.mem_append, List.mem_filterMap]
    exact .inr (.inr ⟨p, hp, by rw [hvalue, Option.map_some]⟩)
  rw [records_eq, List.mem_append]
  exact .inl (mem_declared_iff.mpr ⟨s, hs, hmem⟩)

/-- A prompt is written where the symbol has one. -/
theorem prompts_ne_nil_of_mem_records {name' : String} {visible : Option Expr}
    (h : (id, .prompt name' visible) ∈ records m settings) : s.prompts ≠ [] := by
  rcases mem_plan_of_mem_records hs h with hwritten | hrule
  · obtain ⟨type, -, heq⟩ := written_declarations hclass
    intro hnone
    rw [heq, hnone, List.map_nil, List.nil_append, List.mem_cons, List.mem_filterMap] at hwritten
    rcases hwritten with hconfig | ⟨p, -, hdefault⟩
    · cases hconfig
    · obtain ⟨value, -, hvalue⟩ := Option.map_eq_some_iff.mp hdefault
      cases hvalue
  · cases (rules_admitted m settings id s _ hrule).1

/-- A reverse dependency that is written is the one of the symbol. -/
theorem revDep_of_mem_records {name' : String} {condition : Option Expr}
    (h : (id, .revDep name' condition) ∈ records m settings) :
    name' = name ∧ condition = s.revDep := by
  rcases mem_plan_of_mem_records hs h with hwritten | hrule
  · cases (mem_written_declarations hclass hwritten).2
  · obtain ⟨hname, hkind⟩ := Symbol.class_eq_option_iff.mp hclass
    simp only [rules, hname, if_neg hkind, List.mem_append] at hrule
    rcases hrule with hchoice | hdependency
    · split at hchoice
      · rw [List.mem_singleton, choiceRule] at hchoice
        split at hchoice <;> cases hchoice
      · cases hchoice
    · rw [dependencies_eq_map_write] at hdependency
      obtain ⟨r, hr, heq⟩ := List.mem_map.mp hdependency
      obtain rfl := Step.write.inj heq
      obtain ⟨-, e, he, rfl, rfl⟩ : settings.reverseDependencies = true ∧
          ∃ e, s.revDep = some e ∧ name = name' ∧ some e = condition := by
        simpa [dependencyRecords] using hr
      exact ⟨rfl, he.symm⟩

end

/-- Of an option that is listed as a default, and whose defaults all have values, one line says that
it is on under no condition. It has no line for a prompt, and none for what selects it but one that
always holds. It makes no difference whether the encoding gets to its end. -/
theorem defaults_agree (h : m.validate = .ok ()) (settings : Settings) :
    (Action.defaults.run m settings).writes =
        (Listing.defaultEntries m settings).map (fun x => x.2.1 ++ "\n") ∧
      (Action.extract.run m settings).writes = (attributedLines m settings).map Prod.snd ∧
      ∀ id name s, (id, name, s) ∈ Listing.defaultEntries m settings →
        s.kind = .bool ∨ s.kind = .tristate → (∀ p ∈ s.defaults, p.expr ≠ none) →
          (∀ line ∈ linesOf m settings id, lineWord line ≠ "prompt") ∧
          "def_bool " ++ identifier settings.namePrefix name ++ " 1|(1)\n" ∈
            linesOf m settings id ∧
          ∀ line ∈ linesOf m settings id, lineWord line = "rev_dep" →
            line = "rev_dep " ++ identifier settings.namePrefix name ++ " (1)\n" := by
  refine ⟨Listing.writes_defaults m settings,
    writes_eq_attributedLines (Model.validate_eq_ok_iff.mp h) settings, ?_⟩
  intro id name s hlisted hkind hvalues
  obtain ⟨hs, hname, hdefault, -⟩ := Listing.mem_defaultEntries_iff.mp hlisted
  obtain ⟨hprompts, hrevDep, p, hp, hvisible, hvalue⟩ := Symbol.isDefault_iff.mp hdefault
  have hboolean : s.kind.isBoolean = true := by
    rcases hkind with hkind | hkind <;> rw [hkind] <;> rfl
  have hclass : s.class = .option name := by
    refine Symbol.class_eq_option_iff.mpr ⟨hname, ?_⟩
    rcases hkind with hkind | hkind <;> rw [hkind] <;> nofun
  refine ⟨?_, ?_, ?_⟩
  · intro line hline hword
    obtain ⟨r, hr, rfl⟩ := mem_linesOf_iff.mp hline
    rw [lineWord_lineText] at hword
    obtain ⟨name', visible, rfl⟩ := Record.exists_of_word_eq_prompt hword
    exact prompts_ne_nil_of_mem_records hs hclass hr hprompts
  -- the default that puts the option on the list has a value, so it has a line
  · obtain ⟨value, hexpr⟩ := Option.ne_none_iff_exists'.mp (hvalues p hp)
    have hrecord : (id, .default name s.kind.isBoolean value p.visible) ∈ records m settings :=
      default_mem_records hs hclass hp hexpr
    rw [hboolean] at hrecord
    exact mem_linesOf_iff.mpr
      ⟨_, hrecord, lineText_default_of_isTautology _ name (hvalue value hexpr) hvisible⟩
  · intro line hline hword
    obtain ⟨r, hr, rfl⟩ := mem_linesOf_iff.mp hline
    rw [lineWord_lineText] at hword
    obtain ⟨name', condition, rfl⟩ := Record.exists_of_word_eq_revDep hword
    obtain ⟨rfl, rfl⟩ := revDep_of_mem_records hs hclass hr
    exact lineText_revDep_of_isTautology _ _ hrevDep

/-- An option with a default that depends on another, one that does not, and a reverse dependency
that always holds. -/
def alwaysOn : Symbol where
  name := some "A&B"
  kind := .tristate
  properties := [
    { kind := .default, expr := some (.symbol (.entry ⟨1⟩)),
      visible := some (.not (.symbol (.entry ⟨1⟩))) },
    { kind := .default, expr := some (.symbol (.truth .mod)), visible := some .yes }]
  revDep := some .yes

/-- A model with this option, one that is left out of the listing, and one with a prompt. -/
def onByDefault : Model where
  symbols := #[alwaysOn,
    { name := some "OFF", kind := .bool, properties := [{ kind := .default, expr := some .yes }] },
    { name := some "C", kind := .bool,
      properties := [{ kind := .prompt }, { kind := .default, expr := some .yes }] }]

/-- The option in `onByDefault` that is on by default is listed, and its lines agree. -/
theorem onByDefault_agrees :
    onByDefault.validate = .ok () ∧
      (⟨0⟩, "A&B", alwaysOn) ∈ Listing.defaultEntries onByDefault { forceOff := ["OFF"] } ∧
      (∀ p ∈ alwaysOn.defaults, p.expr ≠ none) ∧
      (Action.defaults.run onByDefault { forceOff := ["OFF"] }).writes = ["A&B\n"] ∧
      "def_bool CONFIG_A_B 1|(1)\n" ∈ linesOf onByDefault { forceOff := ["OFF"] } ⟨0⟩ ∧
      ∀ line ∈ linesOf onByDefault { forceOff := ["OFF"] } ⟨0⟩, lineWord line = "rev_dep" →
        line = "rev_dep CONFIG_A_B (1)\n" := by
  have hcheck : onByDefault.validate = .ok () := by
    rw [Model.validate, Model.menus, Menu.descendants_eq_preorder]
    rfl
  have hlisted : (⟨0⟩, "A&B", alwaysOn) ∈
      Listing.defaultEntries onByDefault { forceOff := ["OFF"] } :=
    Listing.mem_defaultEntries_iff.mpr ⟨rfl, rfl, rfl, by decide⟩
  have hvalues : ∀ p ∈ alwaysOn.defaults, p.expr ≠ none := by
    simp [alwaysOn, Symbol.defaults, Symbol.propertiesOf]
  obtain ⟨hnames, -, hlines⟩ := defaults_agree hcheck { forceOff := ["OFF"] }
  obtain ⟨-, hon, hselected⟩ := hlines ⟨0⟩ "A&B" alwaysOn hlisted (.inr rfl) hvalues
  exact ⟨hcheck, hlisted, hvalues, hnames, hon, hselected⟩

end Constraint

end Kconfig
