import Kconfig.Expr.Basic

/-!
# Chains of choice members

The chain `a ^ (b ^ (c))` of some members is known by its shape (`Expr.IsChainOf`). It is what
`Expr.chain?` makes of the members, and no other expression is (`Expr.chain?_eq_some_iff`). So what
is read off a chain, in whichever way it is gone through, is found by induction on its links.
-/

namespace Kconfig.Expr

/-- Whether an expression is the chain of the given members. -/
inductive IsChainOf : List SymbolRef → Expr → Prop where
  | last (a : SymbolRef) : IsChainOf [a] (listLast a)
  | link (a : SymbolRef) {rest : List SymbolRef} {tail : Expr} :
    IsChainOf rest tail → IsChainOf (a :: rest) (listCons a tail)

variable {members : List SymbolRef} {e : Expr}

/-! ## Building chains -/

/-- Members make a chain if there are any. -/
theorem chain?_eq_none_iff : chain? members = none ↔ members = [] := by
  cases members with
  | nil => exact iff_of_true rfl rfl
  | cons a rest =>
    apply iff_of_false _ (List.cons_ne_nil a rest)
    unfold chain?
    cases chain? rest <;> exact Option.some_ne_none _

/-- The chain of some members is what is built from them. -/
theorem IsChainOf.chain?_eq (h : e.IsChainOf members) : chain? members = some e := by
  induction h with
  | last a => rfl
  | link a _ ih => rw [chain?, ih]

/-- Members make their chain. -/
theorem chain?_eq_some_iff : chain? members = some e ↔ e.IsChainOf members := by
  refine ⟨?_, IsChainOf.chain?_eq⟩
  intro h
  induction members generalizing e with
  | nil => cases h
  | cons a rest ih =>
    unfold chain? at h
    rcases hrest : chain? rest with _ | tail
    · simp only [hrest, Option.some.injEq] at h
      rw [← h, chain?_eq_none_iff.mp hrest]
      exact .last a
    · simp only [hrest, Option.some.injEq] at h
      rw [← h]
      exact .link a (ih hrest)

/-- There is a chain of any members, if there are some. -/
theorem exists_isChainOf (h : members ≠ []) : ∃ e : Expr, e.IsChainOf members := by
  obtain ⟨e, he⟩ := Option.ne_none_iff_exists'.mp (mt chain?_eq_none_iff.mp h)
  exact ⟨e, chain?_eq_some_iff.mp he⟩

/-! ## Reading chains -/

/-- A chain has the members that it is of. -/
theorem IsChainOf.members_eq (h : e.IsChainOf members) : e.members = members := by
  induction h with
  | last a => rfl
  | link a _ ih => rw [Expr.members, ih]

/-- A chain refers to its members, in their order, and to nothing else. -/
theorem IsChainOf.refs_eq (h : e.IsChainOf members) : e.refs = members := by
  induction h with
  | last a => rfl
  | link a _ ih => rw [refs_listCons, ih]

end Kconfig.Expr
