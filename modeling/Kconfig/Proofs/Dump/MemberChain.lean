import Kconfig.Proofs.Dump.Shown
import Kconfig.Proofs.Model.ChoiceShape

/-!
# Chains of members and what reads them

Members that resolve make a chain. It refers to the members, in their order, a choice whose first
`choice` property holds it has them, and the dump shows it as it shows a list of them that no
property holds (`Dump.chain_readers_agree`). Its text is `(A ^ (B ^ (C)))` (`Dump.chainText`).

The chain is shown from the outside, link by link, and the list from left to right, with all the
closing signs at its end. The two are compared by taking the first member off, with the last of
these signs (`Dump.chain_cons_cons`).
-/

namespace Kconfig.Dump

variable {m : Model} {members : List SymbolRef} {e : Expr}

/-! ## Texts -/

/-- A chain is shown as its members are. -/
theorem verbatim_of_isChainOf (h : e.IsChainOf members) : verbatim e = chain members := by
  induction h with
  | last a => rfl
  | @link a rest tail h ih =>
    rcases rest with _ | ⟨b, rest⟩
    · cases h
    · rw [verbatim_listCons, ih, chain_cons_cons]

/-- The text of a chain whose members have the given texts. -/
def chainText : List String → String
  | [] => ""
  | [a] => "(" ++ a ++ ")"
  | a :: b :: rest => "(" ++ a ++ " ^ " ++ chainText (b :: rest) ++ ")"

/-- The tokens of a chain are shown as its text. -/
theorem shown_chain (m : Model) (members : List SymbolRef) :
    shown m (chain members) = chainText (members.map (shownSymbol m)) := by
  induction members with
  | nil => rfl
  | cons a rest ih =>
    have hlast : shown m [.text "(", .symbol a, .text ")"] = "(" ++ shownSymbol m a ++ ")" := by
      simp [shown, Token.shown, String.append_assoc]
    have hlink : shown m [.text "(", .symbol a, .text " ^ "] = "(" ++ shownSymbol m a ++ " ^ " := by
      simp [shown, Token.shown, String.append_assoc]
    have hclose : shown m [.text ")"] = ")" := by
      simp [shown, Token.shown]
    rcases rest with _ | ⟨b, rest⟩
    · exact hlast
    · rw [chain_cons_cons, shown_append, shown_append, hlink, ih, hclose]
      rfl

/-- Members that resolve have a text, wherever they stand. -/
theorem tokensText_chain (h : ∀ sym ∈ members, m.Resolves sym) (context : String) :
    tokensText m context (chain members) = pure (chainText (members.map (shownSymbol m))) := by
  have hliteral : ∀ t ∈ chain members, t.IsLiteral m := forall_mem_chain (fun _ _ => trivial) h
  rw [tokensText_of_isLiteral context hliteral, shown_chain]

/-- A chain of members that resolve is shown without more ado. -/
theorem exprText_of_isChainOf (he : e.IsChainOf members) (h : ∀ sym ∈ members, m.Resolves sym)
    (context : String) :
    exprText m context e = pure (chainText (members.map (shownSymbol m))) := by
  rw [exprText, verbatim_of_isChainOf he, tokensText_chain h]

/-! ## Readers -/

/-- Members that resolve make a chain, which refers to them, is read as them where a choice has it
in its first `choice` property, and is the same text as the list of them. -/
theorem chain_readers_agree (hmembers : members ≠ [])
    (hresolve : ∀ sym ∈ members, m.Resolves sym) :
    ∃ e : Expr, Expr.chain? members = some e ∧ e.IsChainOf members ∧ e.refs = members ∧
      (m.capabilities.choiceMembers = .property → ∀ id s p,
        (s.propertiesOf .choice).head? = some p → p.expr = some e →
          m.choiceMembers id s = members) ∧
      ∀ context,
        exprText m context e = pure (chainText (members.map (shownSymbol m))) ∧
          tokensText m context (chain members) =
            pure (chainText (members.map (shownSymbol m))) := by
  obtain ⟨e, he⟩ := Expr.exists_isChainOf hmembers
  refine ⟨e, he.chain?_eq, he, he.refs_eq, ?_, ?_⟩
  · intro hproperty id s p hp hexpr
    rw [Model.choiceMembers_of_property hproperty, hp, Option.bind_some, hexpr, Option.map_some,
      Option.getD_some, he.members_eq]
  · intro context
    exact ⟨exprText_of_isChainOf he hresolve context, tokensText_chain hresolve context⟩

/-- A chain with a truth value, a value, a nameless symbol and an option that it has twice. -/
def mixedChain : Expr :=
  .listCons (.truth .mod) (.listCons (.entry ⟨1⟩) (.listCons (.entry ⟨2⟩)
    (.listCons (.entry ⟨3⟩) (.listLast (.entry ⟨2⟩)))))

/-- A choice that has the chain in the first of its `choice` properties. -/
def mixedChoice : Symbol where
  kind := .bool
  flags := .choice
  properties := [{ kind := .prompt }, { kind := .choice, expr := some mixedChain },
    { kind := .choice, expr := some (.listLast (.truth .no)) }]

/-- A model with the choice. -/
def mixedMembers : Model where
  symbols := #[mixedChoice, { name := some "42", flags := .constant },
    { name := some "A&B", kind := .tristate }, { kind := .bool, flags := .auto }]

/-- The chain in `mixedChain` is built, collected and shown alike by all its readers. -/
theorem mixedChain_readers_agree :
    mixedChain.refs ≠ [] ∧ (∀ sym ∈ mixedChain.refs, mixedMembers.Resolves sym) ∧
      Expr.chain? mixedChain.refs = some mixedChain ∧
      mixedMembers.choiceMembers ⟨0⟩ mixedChoice = mixedChain.refs ∧
      exprText mixedMembers "choice" mixedChain =
        tokensText mixedMembers "" (chain mixedChain.refs) := by
  have hmembers : mixedChain.refs ≠ [] := List.cons_ne_nil _ _
  have hresolve : ∀ sym ∈ mixedChain.refs, mixedMembers.Resolves sym := by decide
  obtain ⟨e, hchain, -, -, hchoice, htext⟩ := chain_readers_agree hmembers hresolve
  obtain rfl : mixedChain = e := Option.some.inj hchain
  exact ⟨hmembers, hresolve, hchain, hchoice rfl ⟨0⟩ mixedChoice _ rfl rfl,
    (htext "choice").1.trans (htext "").2.symm⟩

end Kconfig.Dump
