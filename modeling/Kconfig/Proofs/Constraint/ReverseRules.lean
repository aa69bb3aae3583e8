import Kconfig.Proofs.Constraint.InvalidChoice
import Mathlib.Data.List.Nodup

/-!
# Encodings without reverse dependencies

The settings may ask for no reverse dependencies. Then the records of what selects an option and of
what an option selects are left out, and there is one thing more to it: an option whose value is a
number or a text and that had a reverse dependency and no direct one now has none, and gets the
dependency that always holds. It stands where the reverse dependency stood.

So the records of one setting are those of the other with something in place of each
(`Constraint.withoutReverse`), in one pass over the list (`Constraint.records_withReverse_false`).
This is proved for the dependencies of one option, where the two effects meet, and carried through
the passes. Where the encoding stops is no matter of the settings, so it holds of encodings that
stop, too.
-/

namespace Kconfig

/-- Whether a record tells what selects an option, seen from either of the two. -/
def Record.isReverse : Record → Bool
  | .select .. => true
  | .revDep .. => true
  | _ => false

namespace Constraint

variable {m : Model} {settings : Settings} {s : Symbol}

/-! ## What is put in place of a record -/

/-- What is put in place of a record of a symbol when reverse dependencies are left out: nothing for
what it selects; for its reverse dependency a dependency that always holds, if it needs one; and any
other record itself. -/
def dropReverse (s : Symbol) : Record → List Record
  | .select .. => []
  | .revDep name _ => if s.kind.isNonboolean ∧ s.dirDep = none then [.dep name none] else []
  | r => [r]

/-- The same for a record with the id of its symbol. -/
def withoutReverse (m : Model) (x : SymbolId × Record) : List (SymbolId × Record) :=
  match m.symbol? x.1 with
  | none => [x]
  | some s => (dropReverse s x.2).map (x.1, ·)

/-- A record of another kind stays. -/
theorem dropReverse_of_not_isReverse {r : Record} (h : ¬ r.isReverse) : dropReverse s r = [r] := by
  rcases r
  case select | revDep => exact absurd rfl h
  all_goals rfl

/-- What is put in place of a record tells nothing of what selects an option. -/
theorem not_isReverse_of_mem_dropReverse {r r' : Record} (h : r' ∈ dropReverse s r) :
    ¬ r'.isReverse := by
  by_cases hr : r.isReverse
  · rcases r
    case select => exact absurd h List.not_mem_nil
    case revDep name condition =>
      have hmem : r' ∈ if s.kind.isNonboolean ∧ s.dirDep = none then [.dep name none] else [] := h
      split at hmem
      · rw [List.mem_singleton.mp hmem]
        exact Bool.false_ne_true
      · exact absurd hmem List.not_mem_nil
    all_goals exact absurd hr Bool.false_ne_true
  · rw [dropReverse_of_not_isReverse hr, List.mem_singleton] at h
    rwa [h]

/-- Leaving out reverse rules is done for the records of one symbol at a time. -/
theorem flatMap_withoutReverse_map {id : SymbolId} (hs : m.symbol? id = some s)
    (rs : List Record) :
    (rs.map (id, ·)).flatMap (withoutReverse m) = (rs.flatMap (dropReverse s)).map (id, ·) := by
  rw [List.flatMap_map, List.map_flatMap]
  apply List.flatMap_congr
  intro r _
  show withoutReverse m (id, r) = _
  simp only [withoutReverse, hs]

/-- What a list keeps of itself, item by item. -/
theorem flatMap_eq_self {α : Type} {f : α → List α} {as : List α} (h : ∀ a ∈ as, f a = [a]) :
    as.flatMap f = as := by
  rw [List.flatMap_congr h, List.flatMap_singleton']

/-! ## The records of a symbol -/

/-- No declaration is a reverse rule. -/
theorem isReverse_of_mem_written_declarations {r : Record}
    (h : r ∈ Step.written (declarations s)) : r.isReverse = false := by
  by_cases hclass : ∃ name, s.class = .option name
  · obtain ⟨name, hname⟩ := hclass
    have hrule : r.isRule = false := (mem_written_declarations hname h).2
    rcases r
    case select | revDep => cases hrule
    all_goals rfl
  · rw [written_declarations_eq_nil fun name hname => hclass ⟨name, hname⟩] at h
    cases h

/-- Declarations have nothing to do with reverse dependencies. -/
theorem flatMap_dropReverse_declarations (s : Symbol) :
    (Step.written (declarations s)).flatMap (dropReverse s) = Step.written (declarations s) := by
  apply flatMap_eq_self
  intro r hr
  apply dropReverse_of_not_isReverse
  rw [isReverse_of_mem_written_declarations hr]
  exact Bool.false_ne_true

/-- Leaving the reverse dependency out may leave an option without any: then the place is taken by
the dependency that always holds. -/
theorem dependencyRecords_withReverse_false (settings : Settings) (name : String) (s : Symbol) :
    dependencyRecords (settings.withReverse false) name s =
      (dependencyRecords (settings.withReverse true) name s).flatMap (dropReverse s) := by
  have hselects : (s.selects.map fun q => Record.select q.expr name q.visible).flatMap
      (dropReverse s) = [] := by
    rw [List.flatMap_map]
    exact List.flatMap_eq_nil_iff.mpr fun _ _ => rfl
  have hon : (settings.withReverse true).reverseDependencies = true := rfl
  have hoff : (settings.withReverse false).reverseDependencies = false := rfl
  rw [dependencyRecords, dependencyRecords, hon, hoff]
  rcases hdirDep : s.dirDep with _ | e <;> rcases hrevDep : s.revDep with _ | e' <;>
    by_cases hkind : s.kind.isNonboolean <;>
    simp [dropReverse, hselects, hdirDep, hkind]

/-- The rules of a symbol without reverse dependencies are those with them, each replaced. -/
theorem written_rules_withReverse_false (settings : Settings) (id : SymbolId)
    (h : ¬ s.IsInvalidChoice) :
    Step.written (rules m (settings.withReverse false) id s) =
      (Step.written (rules m (settings.withReverse true) id s)).flatMap (dropReverse s) := by
  have hchoice : (Step.written (if s.isChoice then [choiceRule m id s] else [])).flatMap
      (dropReverse s) = Step.written (if s.isChoice then [choiceRule m id s] else []) := by
    unfold choiceRule
    split
    · split <;> rfl
    · rfl
  have hending := ending_rules (m := m) (settings.withReverse true) id h
  unfold rules at hending ⊢
  obtain ⟨hgo, -⟩ := Step.ending_append_eq_ok_iff.mp hending
  rw [Step.written_append hgo, Step.written_append hgo, List.flatMap_append, hchoice]
  congr 1
  rcases s.named with _ | name
  · rfl
  · simp only
    split
    · rfl
    · rw [written_dependencies, written_dependencies, dependencyRecords_withReverse_false]

/-! ## The records of a model -/

/-- A record of the second pass belongs to an entry that the pass is made over. -/
theorem exists_mem_of_mem_ruledOf {entries : List (SymbolId × Symbol)} {x : SymbolId × Record}
    (h : x ∈ ruledOf m settings entries) : ∃ y ∈ entries, y.1 = x.1 := by
  obtain ⟨y, hy, hx⟩ := List.mem_flatMap.mp h
  obtain ⟨r, -, rfl⟩ := List.mem_map.mp hx
  exact ⟨y, hy, rfl⟩

/-- The records without reverse dependencies are those with them, each with what is put in its
place. -/
theorem records_withReverse_false (m : Model) (settings : Settings) :
    records m (settings.withReverse false) =
      (records m (settings.withReverse true)).flatMap (withoutReverse m) := by
  rw [records_eq_reached, records_eq_reached, List.flatMap_append]
  congr 1
  · unfold declared
    rw [List.flatMap_assoc]
    apply List.flatMap_congr
    intro x hx
    rw [flatMap_withoutReverse_map (Model.mem_entries_iff.mp hx), flatMap_dropReverse_declarations]
  · unfold ruledOf
    rw [List.flatMap_assoc]
    apply List.flatMap_congr
    intro x hx
    rw [flatMap_withoutReverse_map (Model.mem_entries_iff.mp (mem_entries_of_mem_reached hx)),
      written_rules_withReverse_false settings x.1 (not_isInvalidChoice_of_mem_reached hx)]

/-- No record is left that tells what selects an option. -/
theorem not_isReverse_of_mem_records {x : SymbolId × Record}
    (h : x ∈ records m (settings.withReverse false)) : ¬ x.2.isReverse := by
  rw [records_withReverse_false] at h
  obtain ⟨y, hy, hx⟩ := List.mem_flatMap.mp h
  obtain ⟨s, hs, -⟩ := exists_plan_of_mem_records hy
  simp only [withoutReverse, hs] at hx
  obtain ⟨r, hr, rfl⟩ := List.mem_map.mp hx
  exact not_isReverse_of_mem_dropReverse hr

/-! ## Where a reverse dependency stood -/

/-- Only one of the entries that are reached has a given id. -/
theorem exists_reached_eq {id : SymbolId} (hs : (id, s) ∈ reached m) :
    ∃ earlier later, reached m = earlier ++ (id, s) :: later ∧
      ∀ y ∈ earlier ++ later, y.1 ≠ id := by
  obtain ⟨earlier, later, hreached⟩ := List.append_of_mem hs
  refine ⟨earlier, later, hreached, ?_⟩
  have hnodup : ((reached m).map Prod.fst).Nodup :=
    (Model.nodup_entries m).sublist ((List.takeWhile_sublist _).map _)
  rw [hreached, List.map_append, List.map_cons, List.nodup_middle, List.nodup_cons,
    ← List.map_append] at hnodup
  intro y hy hid
  exact hnodup.1 (List.mem_map.mpr ⟨y, hy, hid⟩)

/-- The rules of a number or text without direct dependency, but with a reverse dependency: what it
selects, and then that. -/
theorem written_rules_of_revDep {id : SymbolId} {name : String} {e : Expr}
    (hname : s.named = some name) (hkind : s.kind.isNonboolean) (hdirDep : s.dirDep = none)
    (hrevDep : s.revDep = some e) (hvalid : ¬ s.IsInvalidChoice) :
    Step.written (rules m (settings.withReverse true) id s) =
      (s.selects.map fun q => .select q.expr name q.visible) ++ [.revDep name (some e)] := by
  have hboolean : ¬ s.kind.isBoolean := by
    rcases hs : s.kind <;> rw [hs] at hkind <;> first | exact Bool.false_ne_true | cases hkind
  have hchoice : ¬ s.isChoice := fun hs => hvalid (Symbol.isInvalidChoice_iff.mpr ⟨hs, hboolean⟩)
  have htyped : s.kind ≠ .unknown := by
    rintro hs
    rw [hs] at hkind
    cases hkind
  have hon : (settings.withReverse true).reverseDependencies = true := rfl
  unfold rules
  rw [if_neg hchoice, hname]
  show Step.written (if s.kind = .unknown then [] else _) = _
  rw [if_neg htyped, written_dependencies, dependencyRecords, hon, hdirDep, hrevDep]
  simp

/-- The reverse dependency of such an option is the only one that is written for it, and a
dependency that always holds is what it is replaced by. -/
theorem records_of_revDep {id : SymbolId} {name : String} {e : Expr} (hs : (id, s) ∈ reached m)
    (hname : s.named = some name) (hkind : s.kind.isNonboolean) (hdirDep : s.dirDep = none)
    (hrevDep : s.revDep = some e) :
    ∃ before after,
      records m (settings.withReverse true) =
        before ++ (id, .revDep name (some e)) :: after ∧
      (∀ x ∈ before ++ after, x.1 = id → ∀ name condition, x.2 ≠ .revDep name condition) ∧
      records m (settings.withReverse false) =
        before.flatMap (withoutReverse m) ++
          (id, .dep name none) :: after.flatMap (withoutReverse m) := by
  -- the records of earlier and later entries stand around those of this one
  obtain ⟨earlier, later, hreached, hother⟩ := exists_reached_eq hs
  let selected : List (SymbolId × Record) :=
    s.selects.map fun q => (id, .select q.expr name q.visible)
  have hon : records m (settings.withReverse true) =
      (declared m ++ ruledOf m (settings.withReverse true) earlier ++ selected) ++
        (id, .revDep name (some e)) :: ruledOf m (settings.withReverse true) later := by
    have hrules : (Step.written (rules m (settings.withReverse true) id s)).map (id, ·) =
        selected ++ [(id, .revDep name (some e))] := by
      rw [written_rules_of_revDep hname hkind hdirDep hrevDep
        (not_isInvalidChoice_of_mem_reached hs), List.map_append, List.map_map]
      rfl
    rw [records_eq_reached, hreached, ruledOf, List.flatMap_append, List.flatMap_cons, hrules]
    simp only [ruledOf, List.append_assoc, List.singleton_append]
  refine ⟨_, _, hon, ?_, ?_⟩
  · -- a declaration is no reverse dependency, and other entries have other ids
    intro x hx hid name' condition hrecord
    simp only [List.mem_append] at hx
    rcases hx with ((hx | hx) | hx) | hx
    · obtain ⟨s', -, hdeclaration⟩ := mem_declared_iff.mp hx
      have hreverse := isReverse_of_mem_written_declarations hdeclaration
      rw [hrecord] at hreverse
      cases hreverse
    · obtain ⟨y, hy, hyid⟩ := exists_mem_of_mem_ruledOf hx
      exact hother y (List.mem_append_left later hy) (hyid.trans hid)
    · obtain ⟨q, -, rfl⟩ := List.mem_map.mp hx
      cases hrecord
    · obtain ⟨y, hy, hyid⟩ := exists_mem_of_mem_ruledOf hx
      exact hother y (List.mem_append_right earlier hy) (hyid.trans hid)
  · have hreplaced : withoutReverse m (id, .revDep name (some e)) = [(id, .dep name none)] := by
      have hentry := Model.mem_entries_iff.mp (mem_entries_of_mem_reached hs)
      simp only [withoutReverse, hentry, dropReverse, if_pos (And.intro hkind hdirDep),
        List.map_cons, List.map_nil]
    rw [records_withReverse_false, hon, List.flatMap_append, List.flatMap_cons, hreplaced,
      List.singleton_append]

/-! ## Encodings with and without reverse dependencies -/

/-- Where the second pass stops does not depend on the settings. -/
theorem ending_rulePlan_eq (m : Model) (settings settings' : Settings) :
    Step.ending (rulePlan m settings) = Step.ending (rulePlan m settings') := by
  by_cases hinvalid : ∃ s ∈ m.symbols, s.IsInvalidChoice
  · obtain ⟨x, hx⟩ := exists_find?_eq_some hinvalid
    rw [(rulePlan_stops m settings).2 x hx, (rulePlan_stops m settings').2 x hx]
  · have hvalid : ∀ s ∈ m.symbols, ¬ s.IsInvalidChoice := fun s hs hs' => hinvalid ⟨s, hs, hs'⟩
    rw [ending_rulePlan_of_forall settings hvalid, ending_rulePlan_of_forall settings' hvalid]

/-- Without reverse dependencies, a checked model is encoded by the same lines, but for those of
`select` and `rev_dep` records. They are left out, and where the `rev_dep` record of an option stood
that has a number or a text for its value and no direct dependency, there is the dependency that
always holds. The encoding ends in the same way. -/
theorem extract_withReverse_false (h : m.validate = .ok ()) (settings : Settings) :
    (extract m (settings.withReverse true)).writes =
        (records m (settings.withReverse true)).map
          (fun x => x.2.lineText (linePrinter m settings)) ∧
      (extract m (settings.withReverse false)).writes =
        ((records m (settings.withReverse true)).flatMap (withoutReverse m)).map
          (fun x => x.2.lineText (linePrinter m settings)) ∧
      (∀ x ∈ records m (settings.withReverse false), ¬ x.2.isReverse) ∧
      (extract m (settings.withReverse false)).ending =
        (extract m (settings.withReverse true)).ending ∧
      (∀ name, (Record.dep name none).lineText (linePrinter m settings) =
        "dep " ++ identifier settings.namePrefix name ++ " (1)\n") ∧
      ∀ id s name e, (id, s) ∈ reached m → s.named = some name → s.kind.isNonboolean →
        s.dirDep = none → s.revDep = some e →
        ∃ before after,
          records m (settings.withReverse true) =
            before ++ (id, .revDep name (some e)) :: after ∧
          (∀ x ∈ before ++ after, x.1 = id → ∀ name condition, x.2 ≠ .revDep name condition) ∧
          records m (settings.withReverse false) =
            before.flatMap (withoutReverse m) ++
              (id, .dep name none) :: after.flatMap (withoutReverse m) := by
  have hsound := Model.validate_eq_ok_iff.mp h
  -- the lines do not depend on the setting, only the records do
  have hwrites : ∀ on, (extract m (settings.withReverse on)).writes =
      (records m (settings.withReverse on)).map
        (fun x => x.2.lineText (linePrinter m settings)) := by
    intro on
    rw [writes_eq_attributedLines hsound, attributedLines, List.map_map]
    rfl
  refine ⟨hwrites true, ?_, fun _ => not_isReverse_of_mem_records, ?_, ?_, ?_⟩
  · rw [hwrites false, records_withReverse_false]
  · rw [ending_extract hsound, ending_extract hsound, ending_rulePlan_eq]
  · intro name
    have hone : (linePrinter m settings).conditionText none = "1" := rfl
    simp only [Record.lineText, hone, String.append_assoc]
    rfl
  · intro id s name e hs hname hkind hdirDep hrevDep
    exact records_of_revDep hs hname hkind hdirDep hrevDep

/-- Two numbers that a symbol selects: one has a direct dependency, and one has nothing else. The
symbol after them is a choice of texts, at which the encoding stops. -/
def selectedNumbers : Model where
  symbols := #[
    { name := some "A", kind := .bool,
      properties := [
        { kind := .select, expr := some (.symbol (.entry ⟨1⟩)) },
        { kind := .select, expr := some (.symbol (.entry ⟨2⟩)) }] },
    { name := some "N", kind := .int, dirDep := some (.symbol (.entry ⟨0⟩)),
      revDep := some (.symbol (.entry ⟨0⟩)) },
    { name := some "X", kind := .hex, revDep := some (.symbol (.entry ⟨0⟩)) },
    { kind := .string, flags := .choice },
    { name := some "S", kind := .string }]

/-- What the encoding of `selectedNumbers` writes with reverse dependencies and without them, up to
its choice. -/
theorem selectedNumbers_writes :
    selectedNumbers.validate = .ok () ∧
      (extract selectedNumbers {}).writes =
        ["config CONFIG_A bool\n", "config CONFIG_N number\n", "config CONFIG_X number\n",
          "config CONFIG_S string\n", "select CONFIG_N CONFIG_A (1)\n",
          "select CONFIG_X CONFIG_A (1)\n", "dep CONFIG_N (CONFIG_A)\n",
          "rev_dep CONFIG_N (CONFIG_A)\n", "rev_dep CONFIG_X (CONFIG_A)\n"] ∧
      (extract selectedNumbers { reverseDependencies := false }).writes =
        ["config CONFIG_A bool\n", "config CONFIG_N number\n", "config CONFIG_X number\n",
          "config CONFIG_S string\n", "dep CONFIG_N (CONFIG_A)\n", "dep CONFIG_X (1)\n"] ∧
      (extract selectedNumbers { reverseDependencies := false }).ending =
        .error (.error (.invalidChoiceType ⟨3⟩ .string)) ∧
      ∃ before after, records selectedNumbers { reverseDependencies := false } =
        before ++ (⟨2⟩, .dep "X" none) :: after := by
  have hcheck : selectedNumbers.validate = .ok () := by
    rw [Model.validate, Model.menus, Menu.descendants_eq_preorder]
    rfl
  obtain ⟨hwith, hwithout, -, hending, -, hplace⟩ := extract_withReverse_false hcheck {}
  obtain ⟨before, after, -, -, hrecords⟩ := hplace ⟨2⟩ _ "X" _
    (List.mem_of_getElem? (i := 2) rfl) rfl rfl rfl rfl
  exact ⟨hcheck, hwith, hwithout, hending, _, _, hrecords⟩

end Constraint

end Kconfig
