import Kconfig.Proofs.Constraint.Declaration
import Kconfig.Proofs.Constraint.Lines

/-!
# Two blocks of lines

What an encoding that comes to its end writes is said here line by line, for one symbol at a time:
what a symbol has in the first block (`Constraint.declarationLines`) and what it has in the second
(`Constraint.ruleLines`). The output is the one for all symbols in the order of the table, and then
the other (`Constraint.writes_eq_blocks`). So no line is left out, written twice or out of order.

An option whose value is a number or a text has a dependency of its own if it has lines of neither
kind, direct or reverse. Here this is asked of the lines themselves; the encoding asks it of the
symbol and of the settings.
-/

namespace Kconfig

/-- The name of a symbol that is an option and the word for its type: the name is there and not
empty, and the kind has a word. -/
def Symbol.option? (s : Symbol) : Option (String × String) :=
  match s.name, s.kind.constraintName with
  | some name, some type => if name = "" then none else some (name, type)
  | _, _ => none

/-- A symbol is an option with a type where it stands for one. -/
theorem Symbol.option?_eq_some_iff {s : Symbol} {name type : String} :
    s.option? = some (name, type) ↔
      s.class = .option name ∧ s.kind.constraintName = some type := by
  rw [class_eq_option_iff]
  unfold option? named
  rcases s.name with _ | n
  · simp
  · rcases htype : s.kind.constraintName with _ | t
    · simp
    · have hkind := SymbolKind.ne_unknown_of_constraintName htype
      by_cases hname : n = ""
      · simp [hname]
      · simp [hname, hkind]

/-- A symbol is no option just if its class is none. -/
theorem Symbol.option?_eq_none_iff {s : Symbol} :
    s.option? = none ↔ ∀ name, s.class ≠ .option name := by
  rw [Option.eq_none_iff_forall_not_mem]
  constructor
  · intro h name hclass
    obtain ⟨type, htype⟩ := SymbolKind.exists_constraintName (class_eq_option_iff.mp hclass).2
    exact h (name, type) (option?_eq_some_iff.mpr ⟨hclass, htype⟩)
  · rintro h ⟨name, type⟩ hoption
    exact h name (option?_eq_some_iff.mp hoption).1

namespace Constraint

/-! ## What a symbol has in each block -/

section Lines

variable (p : Printer)

/-- The lines of a symbol in the first block: if it is an option, its type, a line for each prompt
and a line for each default that has a value. -/
def declarationLines (s : Symbol) : List String :=
  match s.option? with
  | none => []
  | some (name, type) =>
    let option := identifier p.namePrefix name
    let word := if s.kind.isBoolean then "def_bool" else "def_nonbool"
    ("config " ++ option ++ " " ++ type ++ "\n") ::
      (s.prompts.map fun q =>
        "prompt " ++ option ++ " (" ++ p.conditionText q.visible ++ ")" ++ "\n") ++
      s.defaults.filterMap fun q => q.expr.map fun value =>
        word ++ " " ++ option ++ " " ++ p.exprText value ++ "|(" ++
          p.conditionText q.visible ++ ")" ++ "\n"

/-- The line of a choice: its members, and the condition of its first prompt. -/
def choiceLine (id : SymbolId) (s : Symbol) : String :=
  let word :=
    (if s.kind = .tristate then "tristate" else "bool") ++
      (if p.model.isOptionalChoice s then "_opt" else "") ++ "_choice"
  let members := (p.model.choiceMembers id s).map fun sym => " " ++ p.symbolText sym
  word ++ String.join members ++ "|(" ++
    p.conditionText (s.prompts.head?.bind Property.visible) ++ ")" ++ "\n"

/-- The line of a direct dependency, if there is one. -/
def depLines (option : String) (s : Symbol) : List String :=
  s.dirDep.toList.map fun e => "dep " ++ option ++ " (" ++ p.exprText e ++ ")" ++ "\n"

/-- The lines of what an option selects. -/
def selectLines (settings : Settings) (option : String) (s : Symbol) : List String :=
  if settings.reverseDependencies then
    s.selects.map fun q =>
      "select " ++ p.conditionText q.expr ++ " " ++ option ++ " (" ++
        p.conditionText q.visible ++ ")" ++ "\n"
  else []

/-- The line of a reverse dependency, if there is one. -/
def revDepLines (settings : Settings) (option : String) (s : Symbol) : List String :=
  if settings.reverseDependencies then
    s.revDep.toList.map fun e => "rev_dep " ++ option ++ " (" ++ p.exprText e ++ ")" ++ "\n"
  else []

/-- The dependency that a number or a text has if it has no other. -/
def fallbackLines (settings : Settings) (option : String) (s : Symbol) : List String :=
  if s.kind.isNonboolean ∧ depLines p option s = [] ∧ revDepLines p settings option s = [] then
    ["dep " ++ option ++ " (1)" ++ "\n"]
  else []

/-- The lines of a symbol in the second block: one for the choice, if it is one, named or not, and
those of its dependencies, if it is an option. -/
def ruleLines (settings : Settings) (id : SymbolId) (s : Symbol) : List String :=
  (if s.isChoice then [choiceLine p id s] else []) ++
    match s.option? with
    | none => []
    | some (name, _) =>
      let option := identifier p.namePrefix name
      depLines p option s ++ selectLines p settings option s ++
        revDepLines p settings option s ++ fallbackLines p settings option s

end Lines

/-! ## The records of a symbol and their lines -/

variable {p : Printer} {s : Symbol}

/-- The lines of the first pass for a symbol are those of its declarations. -/
theorem map_lineText_declarations (p : Printer) (s : Symbol) :
    (Step.written (declarations s)).map (Record.lineText p) = declarationLines p s := by
  unfold declarationLines
  rcases h : s.option? with _ | ⟨name, type⟩
  · rw [written_declarations_eq_nil (Symbol.option?_eq_none_iff.mp h)]
    rfl
  · obtain ⟨hclass, htype⟩ := Symbol.option?_eq_some_iff.mp h
    obtain ⟨type', htype', hwritten⟩ := written_declarations hclass
    obtain rfl : type = type' := Option.some.inj (htype.symm.trans htype')
    rw [hwritten]
    simp only [List.map_cons, List.map_append, List.map_map, List.map_filterMap, Option.map_map]
    rfl

/-- The word of a choice is put together from its type and from whether it is optional. -/
theorem choiceWord_eq (tristate optional : Bool) :
    Record.choiceWord tristate optional =
      (if tristate then "tristate" else "bool") ++ (if optional then "_opt" else "") ++
        "_choice" := by
  cases tristate <;> cases optional <;> rfl

/-- A choice at which the encoding does not stop has its line. -/
theorem map_lineText_choiceRule {id : SymbolId}
    (h : Step.ending [choiceRule p.model id s] = .ok ()) :
    (Step.written [choiceRule p.model id s]).map (Record.lineText p) = [choiceLine p id s] := by
  unfold choiceRule at h ⊢
  split at h
  · next hkind =>
    rw [if_pos hkind]
    simp only [Step.written, List.map_cons, List.map_nil, Record.lineText, choiceWord_eq,
      decide_eq_true_eq, List.map_map]
    rfl
  · cases h

/-- The records of an option's dependencies. -/
def dependencyRecords (settings : Settings) (name : String) (s : Symbol) : List Record :=
  (s.dirDep.toList.map fun e => .dep name (some e)) ++
    (if settings.reverseDependencies then
      (s.selects.map fun q => .select q.expr name q.visible) ++
        s.revDep.toList.map fun e => .revDep name (some e)
    else []) ++
    if s.kind.isNonboolean ∧ s.dirDep = none ∧
      (settings.reverseDependencies → s.revDep = none) then [.dep name none] else []

/-- The dependencies of an option are nothing but writes. -/
theorem dependencies_eq_map_write (settings : Settings) (name : String) (s : Symbol) :
    dependencies settings name s = (dependencyRecords settings name s).map .write := by
  unfold dependencies dependencyRecords reverseRules
  rcases s.dirDep with _ | e <;> rcases s.revDep with _ | e' <;>
    cases settings.reverseDependencies <;> cases s.kind.isNonboolean <;> simp

/-- The dependencies of a symbol write the records that are listed for it. -/
theorem written_dependencies (settings : Settings) (name : String) (s : Symbol) :
    Step.written (dependencies settings name s) = dependencyRecords settings name s := by
  rw [dependencies_eq_map_write, Step.written_map_write]

/-- Writing the dependencies of a symbol does not stop. -/
theorem ending_dependencies (settings : Settings) (name : String) (s : Symbol) :
    Step.ending (dependencies settings name s) = .ok () := by
  rw [dependencies_eq_map_write, Step.ending_map_write]

/-- There is no line of a direct dependency just if there is no direct dependency. -/
theorem depLines_eq_nil_iff {option : String} : depLines p option s = [] ↔ s.dirDep = none := by
  simp [depLines]

/-- There is no line of a reverse dependency just if there is none, or none is asked for. -/
theorem revDepLines_eq_nil_iff {settings : Settings} {option : String} :
    revDepLines p settings option s = [] ↔
      (settings.reverseDependencies → s.revDep = none) := by
  unfold revDepLines
  split
  · next h => simp [h]
  · next h => simp [h]

/-- The lines of the dependencies of a symbol come in the order of the four kinds. -/
theorem map_lineText_dependencies (settings : Settings) (name : String) :
    (Step.written (dependencies settings name s)).map (Record.lineText p) =
      depLines p (identifier p.namePrefix name) s ++
        selectLines p settings (identifier p.namePrefix name) s ++
        revDepLines p settings (identifier p.namePrefix name) s ++
        fallbackLines p settings (identifier p.namePrefix name) s := by
  have hfallback : fallbackLines p settings (identifier p.namePrefix name) s =
      (if s.kind.isNonboolean ∧ s.dirDep = none ∧
        (settings.reverseDependencies → s.revDep = none) then [Record.dep name none]
      else []).map (Record.lineText p) := by
    unfold fallbackLines
    simp only [depLines_eq_nil_iff, revDepLines_eq_nil_iff]
    split
    · have hone : " (" ++ "1" ++ ")" = " (1)" := rfl
      simp only [List.map_cons, List.map_nil, Record.lineText, ← hone, String.append_assoc]
      rfl
    · rfl
  rw [written_dependencies, dependencyRecords, hfallback, depLines, selectLines, revDepLines]
  split
  · simp only [List.map_append, List.map_map, List.append_assoc]
    rfl
  · simp only [List.map_append, List.map_map, List.append_nil]
    rfl

/-- What the second pass writes for a symbol at which it does not stop. -/
theorem map_lineText_rules {settings : Settings} {id : SymbolId}
    (h : Step.ending (rules p.model settings id s) = .ok ()) :
    (Step.written (rules p.model settings id s)).map (Record.lineText p) =
      ruleLines p settings id s := by
  unfold rules ruleLines at *
  obtain ⟨hchoice, -⟩ := Step.ending_append_eq_ok_iff.mp h
  rw [Step.written_append hchoice, List.map_append]
  congr 1
  · split at hchoice
    · next hs =>
      rw [if_pos hs, if_pos hs, map_lineText_choiceRule hchoice]
    · next hs =>
      rw [if_neg hs, if_neg hs]
      rfl
  · rcases hoption : s.option? with _ | ⟨name, type⟩
    · have hclass := Symbol.option?_eq_none_iff.mp hoption
      rcases hname : s.named with _ | name
      · rfl
      · by_cases hkind : s.kind = .unknown
        · simp only [if_pos hkind]
          rfl
        · exact absurd (Symbol.class_eq_option_iff.mpr ⟨hname, hkind⟩) (hclass name)
    · have hclass := (Symbol.option?_eq_some_iff.mp hoption).1
      obtain ⟨hname, hkind⟩ := Symbol.class_eq_option_iff.mp hclass
      simp only [hname, if_neg hkind]
      exact map_lineText_dependencies settings name

/-! ## The two blocks -/

/-- Whether a line is a dependency of an option, direct or reverse. -/
def IsDependency (option line : String) : Prop :=
  ∃ word ∈ ["dep ", "rev_dep "], ∃ condition,
    line = word ++ option ++ " (" ++ condition ++ ")" ++ "\n"

/-- The line of a direct dependency is a dependency. -/
theorem isDependency_of_mem_depLines {option line : String} (h : line ∈ depLines p option s) :
    IsDependency option line := by
  obtain ⟨e, -, rfl⟩ := List.mem_map.mp h
  exact ⟨"dep ", by simp, p.exprText e, rfl⟩

/-- The line of a reverse dependency is a dependency. -/
theorem isDependency_of_mem_revDepLines {settings : Settings} {option line : String}
    (h : line ∈ revDepLines p settings option s) : IsDependency option line := by
  unfold revDepLines at h
  split at h
  · obtain ⟨e, -, rfl⟩ := List.mem_map.mp h
    exact ⟨"rev_dep ", by simp, p.exprText e, rfl⟩
  · cases h

/-- What is written in place of a dependency reads as one. -/
theorem isDependency_fallback (option : String) :
    IsDependency option ("dep " ++ option ++ " (1)" ++ "\n") := by
  refine ⟨"dep ", by simp, "1", ?_⟩
  simp only [String.append_assoc]
  rfl

/-- A number or a text has a dependency in the second block. -/
theorem exists_dependency {settings : Settings} {id : SymbolId} {name : String}
    (hname : s.named = some name) (hkind : s.kind.isNonboolean) :
    ∃ line ∈ ruleLines p settings id s, IsDependency (identifier p.namePrefix name) line := by
  have hknown : s.kind ≠ .unknown := by
    intro hunknown
    rw [hunknown] at hkind
    cases hkind
  obtain ⟨type, htype⟩ := SymbolKind.exists_constraintName hknown
  have hclass := Symbol.class_eq_option_iff.mpr ⟨hname, hknown⟩
  have hoption := Symbol.option?_eq_some_iff.mpr ⟨hclass, htype⟩
  unfold ruleLines
  simp only [hoption, List.mem_append]
  by_cases hdep : depLines p (identifier p.namePrefix name) s = []
  · by_cases hrev : revDepLines p settings (identifier p.namePrefix name) s = []
    · refine ⟨_, .inr (.inr ?_), isDependency_fallback _⟩
      rw [fallbackLines, if_pos ⟨hkind, hdep, hrev⟩]
      exact List.mem_singleton_self _
    · obtain ⟨line, hline⟩ := List.exists_mem_of_ne_nil _ hrev
      exact ⟨line, .inr (.inl (.inr hline)), isDependency_of_mem_revDepLines hline⟩
  · obtain ⟨line, hline⟩ := List.exists_mem_of_ne_nil _ hdep
    exact ⟨line, .inr (.inl (.inl (.inl hline))), isDependency_of_mem_depLines hline⟩

/-- What an encoding of a checked model writes, if it comes to its end: for every symbol, in the
order of the table, its lines of the first block, and then for every symbol, in the same order,
those of the second. Every number or text has a dependency among the latter. -/
theorem writes_eq_blocks {m : Model} {settings : Settings} (h : m.validate = .ok ())
    (hending : (extract m settings).ending = .ok ()) :
    ((extract m settings).writes =
      (m.entries.flatMap fun x => declarationLines (linePrinter m settings) x.2) ++
        m.entries.flatMap fun x => ruleLines (linePrinter m settings) settings x.1 x.2) ∧
      ∀ id s name, m.symbol? id = some s → s.named = some name → s.kind.isNonboolean →
        ∃ line ∈ (extract m settings).writes,
          line ∈ ruleLines (linePrinter m settings) settings id s ∧
            IsDependency (identifier settings.namePrefix name) line := by
  have hsound := Model.validate_eq_ok_iff.mp h
  have hrules := ending_rules_of_ok hsound hending
  -- each pass over the table is a block, since each of its records is a line
  have hblocks : (extract m settings).writes =
      (m.entries.flatMap fun x => declarationLines (linePrinter m settings) x.2) ++
        m.entries.flatMap fun x => ruleLines (linePrinter m settings) settings x.1 x.2 := by
    rw [writes_eq_attributedLines hsound, attributedLines, records_of_ok hsound hending, declared,
      ruled]
    simp only [List.map_append, List.map_flatMap, List.map_map]
    congr 1
    · apply List.flatMap_congr
      intro x _
      exact map_lineText_declarations _ x.2
    · apply List.flatMap_congr
      intro x hx
      exact map_lineText_rules (hrules x hx)
  refine ⟨hblocks, ?_⟩
  intro id s name hs hname hkind
  obtain ⟨line, hline, hdependency⟩ := exists_dependency hname hkind
  refine ⟨line, ?_, hline, hdependency⟩
  rw [hblocks, List.mem_append, List.mem_flatMap, List.mem_flatMap]
  exact .inr ⟨(id, s), Model.mem_entries_iff.mpr hs, hline⟩

/-- A model with a choice without a name, an option that selects another and has a default without
a value, a choice with a name, and a number that only something else sets. -/
def mixedTable : Model where
  symbols := #[
    { kind := .tristate, flags := .choice,
      properties := [
        { kind := .prompt, visible := some (.symbol (.entry ⟨1⟩)) },
        { kind := .choice, expr := some (.listCons (.entry ⟨1⟩) (.listLast (.entry ⟨2⟩))) }] },
    { name := some "A", kind := .bool,
      properties := [
        { kind := .select, expr := some (.symbol (.entry ⟨2⟩)) },
        { kind := .default },
        { kind := .default, expr := some (.symbol (.truth .yes)) },
        { kind := .prompt, text := some "Pick" }],
      dirDep := some (.symbol (.entry ⟨3⟩)) },
    { name := some "B", kind := .bool, flags := .choice,
      revDep := some (.symbol (.entry ⟨1⟩)) },
    { name := some "N", kind := .int, revDep := some (.symbol (.entry ⟨1⟩)) },
    { name := some "42" }]

/-- The lines of `mixedTable`, as its two blocks, where reverse dependencies are left out. -/
theorem mixedTable_writes :
    mixedTable.validate = .ok () ∧
      (extract mixedTable { reverseDependencies := false }).ending = .ok () ∧
      (extract mixedTable { reverseDependencies := false }).writes =
        ["config CONFIG_A bool\n", "prompt CONFIG_A (1)\n", "def_bool CONFIG_A 1|(1)\n",
          "config CONFIG_B bool\n", "config CONFIG_N number\n",
          "tristate_choice CONFIG_A CONFIG_B|(CONFIG_A)\n", "dep CONFIG_A (CONFIG_N)\n",
          "bool_choice|(1)\n", "dep CONFIG_N (1)\n"] ∧
      ∃ line ∈ (extract mixedTable { reverseDependencies := false }).writes,
        IsDependency "CONFIG_N" line := by
  have hcheck : mixedTable.validate = .ok () := by
    rw [Model.validate, Model.menus, Menu.descendants_eq_preorder]
    rfl
  have hending : (extract mixedTable { reverseDependencies := false }).ending = .ok () := rfl
  obtain ⟨hwrites, hdependency⟩ := writes_eq_blocks hcheck hending
  obtain ⟨line, hline, -, hdep⟩ := hdependency ⟨3⟩ _ "N" rfl rfl rfl
  exact ⟨hcheck, hending, hwrites, line, hline, hdep⟩

end Constraint

end Kconfig
