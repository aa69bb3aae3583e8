import Kconfig.Proofs.Condition.Locality
import Kconfig.Proofs.Constraint.Soundness
import Kconfig.Proofs.Dump.Soundness
import Kconfig.Proofs.Model.Closed

/-!
# Expressions are written by their references

An expression is written as a condition, in two dialects, and in the dump. Each of these looks up
symbols on its own, and so does the check of a model, which goes by the references of an expression.
What an expression is written as depends on no other symbols than these
(`Expr.texts_eq_of_agreesAt`): models that agree about the ids of the references make the same runs,
with the same text and messages, and the same end if something is not in the table. Nothing is asked
of the models otherwise. They may be unsound, and of different sizes.

So it is enough for writing an expression that its own references resolve.
-/

namespace Kconfig.Expr

variable {m m' : Model} {e : Expr}

/-- Two models write an expression in the same way, in every dialect and in the dump, if they agree
about the ids that it refers to. It is written in full as a condition if these are in the table, and
shown in the dump or refused. -/
theorem texts_eq_of_agreesAt (h : ∀ id, .entry id ∈ e.refs → m.AgreesAt m' id) :
    (∀ namePrefix dialect enclosing,
        Printer.render ⟨m', namePrefix, dialect⟩ enclosing e =
          Printer.render ⟨m, namePrefix, dialect⟩ enclosing e) ∧
      (∀ context, Dump.exprText m' context e = Dump.exprText m context e) ∧
      ((∀ id, .entry id ∈ e.refs → id.position < m.symbols.size) →
        (∀ namePrefix dialect enclosing, ∃ text,
            (Printer.render ⟨m, namePrefix, dialect⟩ enclosing e).ending = .ok text) ∧
          ∀ context, (Dump.exprText m context e).Orderly) := by
  have hagrees : ∀ sym ∈ e.refs, ∀ id, sym = .entry id → m.AgreesAt m' id := by
    rintro _ hsym id rfl
    exact h id hsym
  refine ⟨?_, ?_, ?_⟩
  · intro namePrefix dialect enclosing
    have hclassify : ∀ sym ∈ e.refs, m'.classify sym = m.classify sym :=
      fun sym hsym => Model.classify_eq_of_agreesAt (hagrees sym hsym)
    exact Printer.render_withModel (p := ⟨m, namePrefix, dialect⟩) hclassify enclosing
  · apply Dump.exprText_congr
    intro sym hsym
    exact Dump.symbolText_eq_of_agreesAt (hagrees sym hsym)
  · intro hposition
    have hresolves : m.ResolvesAll e :=
      Model.resolvesAll_iff.mpr fun id hid => hposition id (mem_refs_iff.mpr hid)
    constructor
    · intro namePrefix dialect enclosing
      rw [Printer.render_of_resolves ⟨m, namePrefix, dialect⟩ enclosing hresolves]
      exact ⟨_, rfl⟩
    · intro context
      exact Dump.exprText_orderly context hresolves

/-- A model with one symbol. -/
def oneSymbol : Model where
  symbols := #[{ name := some "A", kind := .bool }]

/-- A model with two symbols. The first has dependencies, which lead nowhere. -/
def twoSymbols : Model where
  capabilities := { choiceMembers := .menu }
  symbols := #[
    { name := some "A", kind := .bool, revDep := some (.symbol (.entry ⟨7⟩)),
      properties := [{ kind := .choice, expr := some (.listLast (.entry ⟨8⟩)) }] },
    { name := some "B", kind := .tristate, flags := .choice }]

/-- The models with one symbol and with two agree at the first id and at one that neither has. -/
theorem agreesAt_twoSymbols {id : SymbolId} (h : id = ⟨0⟩ ∨ id = ⟨7⟩) :
    oneSymbol.AgreesAt twoSymbols id := by
  rcases h with rfl | rfl
  · exact .present rfl rfl ⟨rfl, rfl, rfl⟩
  · exact .absent rfl rfl

/-- An expression with an ordering comparison, a chain and a node that is not known. -/
def mixed (id : SymbolId) : Expr :=
  .or (.not (.compare .less (.entry ⟨0⟩) (.truth .mod))) (.listCons (.entry id) .unknown)

/-- The expression `mixed` refers to the first symbol and to the one it is made for. -/
theorem eq_of_mem_refs_mixed {id id' : SymbolId} (h : .entry id' ∈ (mixed id).refs) :
    id' = ⟨0⟩ ∨ id' = id := by
  simpa [mixed] using h

/-- Both models write it with an id that is in both tables, and stop at one that is in neither. -/
theorem mixed_texts_eq :
    ((∀ id, .entry id ∈ (mixed ⟨0⟩).refs → oneSymbol.AgreesAt twoSymbols id) ∧
        (∀ id, .entry id ∈ (mixed ⟨0⟩).refs → id.position < oneSymbol.symbols.size) ∧
        (∃ text, (Printer.render ⟨oneSymbol, "", .logic⟩ none (mixed ⟨0⟩)).ending = .ok text) ∧
        (Dump.exprText oneSymbol "default" (mixed ⟨0⟩)).Orderly) ∧
      (∀ id, .entry id ∈ (mixed ⟨7⟩).refs → oneSymbol.AgreesAt twoSymbols id) ∧
        Printer.render ⟨twoSymbols, "", .boolean⟩ none (mixed ⟨7⟩) =
          Printer.render ⟨oneSymbol, "", .boolean⟩ none (mixed ⟨7⟩) ∧
        Dump.exprText twoSymbols "default" (mixed ⟨7⟩) =
          Dump.exprText oneSymbol "default" (mixed ⟨7⟩) := by
  have hinside : ∀ id, .entry id ∈ (mixed ⟨0⟩).refs → oneSymbol.AgreesAt twoSymbols id :=
    fun _ hid => agreesAt_twoSymbols (.inl (or_self_iff.mp (eq_of_mem_refs_mixed hid)))
  have hposition : ∀ id, .entry id ∈ (mixed ⟨0⟩).refs →
      id.position < oneSymbol.symbols.size := by
    intro id hid
    rw [or_self_iff.mp (eq_of_mem_refs_mixed hid)]
    decide
  have hacross : ∀ id, .entry id ∈ (mixed ⟨7⟩).refs → oneSymbol.AgreesAt twoSymbols id :=
    fun _ hid => agreesAt_twoSymbols (eq_of_mem_refs_mixed hid)
  obtain ⟨-, -, hwritten⟩ := texts_eq_of_agreesAt hinside
  obtain ⟨hrender, hdump⟩ := hwritten hposition
  obtain ⟨hrender', hdump', -⟩ := texts_eq_of_agreesAt hacross
  exact ⟨⟨hinside, hposition, hrender "" .logic none, hdump "default"⟩, hacross,
    hrender' "" .boolean none, hdump' "default"⟩

end Kconfig.Expr
