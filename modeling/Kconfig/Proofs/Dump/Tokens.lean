import Kconfig.Dump.Verbatim
import Kconfig.Proofs.Model.Agreement

/-!
# The tokens of dumped expressions

An expression is shown by a few signs and by the symbols that it refers to, and so is a chain of
members. What holds of the signs and of these symbols holds of all tokens, but for the two kinds
that stand for what cannot be shown. In particular, what tokens are shown as depends on a model only
by what the symbols among them are shown as (`Dump.tokensText_congr`).
-/

namespace Kconfig.Dump

/-- The signs in dumped expressions. -/
def signs : List String :=
  ["!", "(", ")", "=", "!=", " &amp;&amp; ", " || ", " ^ ", "[", ",", "]"]

section

variable {P : Token → Prop} (hsign : ∀ s ∈ signs, P (.text s))

include hsign

/-- The tokens of an expression. -/
theorem forall_mem_verbatim (hordering : ∀ op, P (.ordering op)) (hunknown : P .unknown) {e : Expr}
    (hsymbol : ∀ sym ∈ e.refs, P (.symbol sym)) : ∀ t ∈ verbatim e, P t := by
  have hopen : P (.text "(") := hsign _ (by decide)
  have hclose : P (.text ")") := hsign _ (by decide)
  induction e with
  | symbol sym => exact List.forall_mem_singleton.mpr (hsymbol sym List.mem_cons_self)
  | not e ih =>
    rw [verbatim_not, List.forall_mem_cons]
    exact ⟨hsign _ (by decide), ih hsymbol⟩
  | compare op l r =>
    rw [Expr.refs_compare, List.forall_mem_cons, List.forall_mem_singleton] at hsymbol
    rw [verbatim_compare]
    cases op with
    | equal | unequal =>
      simp only [verbatimComparison, List.forall_mem_cons]
      exact ⟨hopen, hsymbol.1, hsign _ (by decide), hsymbol.2, hclose, nofun⟩
    | less | lessEqual | greater | greaterEqual => exact List.forall_mem_singleton.mpr (hordering _)
  | and l r ihl ihr | or l r ihl ihr =>
    simp only [Expr.refs_and, Expr.refs_or, List.forall_mem_append] at hsymbol
    simp only [verbatim_and, verbatim_or, List.forall_mem_append, List.forall_mem_singleton]
    exact ⟨⟨⟨⟨hopen, ihl hsymbol.1⟩, hsign _ (by decide)⟩, ihr hsymbol.2⟩, hclose⟩
  | listLast a =>
    rw [Expr.refs_listLast, List.forall_mem_singleton] at hsymbol
    simp only [verbatim_listLast, List.forall_mem_cons]
    exact ⟨hopen, hsymbol, hclose, nofun⟩
  | listCons a tail ih =>
    rw [Expr.refs_listCons, List.forall_mem_cons] at hsymbol
    simp only [verbatim_listCons, List.forall_mem_append, List.forall_mem_cons]
    exact ⟨⟨⟨hopen, hsymbol.1, hsign _ (by decide), nofun⟩, ih hsymbol.2⟩, hclose, nofun⟩
  | range low high =>
    rw [Expr.refs_range, List.forall_mem_cons, List.forall_mem_singleton] at hsymbol
    simp only [verbatim_range, List.forall_mem_cons]
    exact ⟨hsign _ (by decide), hsymbol.1, hsign _ (by decide), hsymbol.2, hsign _ (by decide),
      nofun⟩
  | unknown => exact List.forall_mem_singleton.mpr hunknown

end

/-- The chain of some members is around the chain of those after the first. -/
theorem chain_cons_cons (a b : SymbolRef) (rest : List SymbolRef) :
    chain (a :: b :: rest) =
      [.text "(", .symbol a, .text " ^ "] ++ chain (b :: rest) ++ [.text ")"] := by
  simp only [chain, chainTail, List.length_cons, List.replicate_succ', List.cons_append,
    List.append_assoc, List.nil_append]

/-- The tokens of a chain. -/
theorem forall_mem_chain {P : Token → Prop} (hsign : ∀ s ∈ signs, P (.text s))
    {members : List SymbolRef} (hsymbol : ∀ sym ∈ members, P (.symbol sym)) :
    ∀ t ∈ chain members, P t := by
  induction members with
  | nil => exact List.forall_mem_nil P
  | cons a rest ih =>
    rw [List.forall_mem_cons] at hsymbol
    have hopen : P (.text "(") := hsign _ (by decide)
    have hclose : ∀ t ∈ [Token.text ")"], P t :=
      List.forall_mem_singleton.mpr (hsign _ (by decide))
    rcases rest with _ | ⟨b, rest⟩
    · exact List.forall_mem_cons.mpr ⟨hopen, List.forall_mem_cons.mpr ⟨hsymbol.1, hclose⟩⟩
    · simp only [chain_cons_cons, List.forall_mem_append, List.forall_mem_cons]
      exact ⟨⟨⟨hopen, hsymbol.1, hsign _ (by decide), nofun⟩, ih hsymbol.2⟩, hclose _ (by simp),
        nofun⟩

/-! ## What is shown in two models -/

/-- An entry is shown by its head. -/
theorem entryText_eq_of_sameHead (id : SymbolId) {s s' : Symbol} (h : s.SameHead s') :
    entryText id s' = entryText id s := by
  unfold entryText
  rw [h.isConstant, h.isChoice, h.kind, h.flags, h.name]

section

variable {m m' : Model}

/-- A reference that two models agree at is shown alike. -/
theorem symbolText_eq_of_agreesAt {sym : SymbolRef}
    (h : ∀ id, sym = .entry id → m.AgreesAt m' id) : symbolText m' sym = symbolText m sym := by
  cases sym with
  | truth t => rfl
  | entry id =>
    cases h id rfl with
    | absent hs hs' => simp only [symbolText, Model.find, hs, hs']
    | present hs hs' head =>
      simp only [symbolText, Model.find, hs, hs', pure_bind, entryText_eq_of_sameHead id head]

/-- Two models show tokens in the same way if they do so with the symbols among them. -/
theorem tokensText_congr {tokens : List Token}
    (h : ∀ sym, .symbol sym ∈ tokens → symbolText m' sym = symbolText m sym) (context : String) :
    tokensText m' context tokens = tokensText m context tokens := by
  have htexts : tokens.mapM (tokenText m' context) = tokens.mapM (tokenText m context) := by
    apply Run.mapM_congr
    intro t ht
    cases t with
    | symbol sym => exact h sym ht
    | text | ordering | unknown => rfl
  rw [tokensText, htexts]
  rfl

/-- What an expression is shown as depends on what its references are shown as. -/
theorem exprText_congr {e : Expr}
    (h : ∀ sym ∈ e.refs, symbolText m' sym = symbolText m sym) (context : String) :
    exprText m' context e = exprText m context e := by
  have htokens : ∀ t ∈ verbatim e, ∀ sym, t = .symbol sym → sym ∈ e.refs := by
    refine forall_mem_verbatim (fun _ _ => nofun) (fun _ => nofun) nofun ?_
    rintro sym hsym _ ⟨⟩
    exact hsym
  apply tokensText_congr
  intro sym hsym
  exact h sym (htokens _ hsym sym rfl)

end

end Kconfig.Dump
