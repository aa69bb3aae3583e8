import Kconfig.Interchange.Decode
import Kconfig.Interchange.Encode
import Kconfig.Proofs.Json.Plain
import Kconfig.Proofs.Json.Record

/-!
# Expressions in JSON form

An expression is what its document is read as, inside other expressions and by itself, as long as
the document is not too deep (`Interchange.expr?_ofExpr`). And whatever document an expression was
read from, the expression's own is no deeper than that one was allowed to be
(`Interchange.depth_le_of_expr?`).
-/

namespace Kconfig.Interchange

open Kconfig.Json (Fields IsPlain)

/-! ## References -/

/-- An id is read back. -/
theorem symbolId?_ofSymbolId (id : SymbolId) : symbolId? (ofSymbolId id) = some id := by
  have hid : id.position < UInt32.size := id.index.toNat_lt_size
  simp only [ofSymbolId, Json.nat, symbolId?, Numeral.toNat?_ofNat, hid, if_true,
    SymbolId.ofPosition_position]

/-- A reference is read back. -/
theorem symbolRef?_ofSymbolRef (r : SymbolRef) : symbolRef? (ofSymbolRef r) = some r := by
  cases r with
  | truth t => cases t <;> rfl
  | entry id =>
    have hword : word? tristates (ofSymbolId id) = none := rfl
    simp only [ofSymbolRef, symbolRef?, hword, symbolId?_ofSymbolId, Option.map_some]

/-- The document of an id is plain. -/
theorem isPlain_ofSymbolId (id : SymbolId) : IsPlain (ofSymbolId id) :=
  .nat (Nat.lt_trans id.index.toNat_lt (by decide))

/-- The document of a reference is plain. -/
theorem isPlain_ofSymbolRef (r : SymbolRef) : IsPlain (ofSymbolRef r) := by
  cases r with
  | truth t => exact .text t.letter
  | entry id => exact isPlain_ofSymbolId id

/-- The document of a reference has no depth. -/
@[simp] theorem depth_ofSymbolRef (r : SymbolRef) : (ofSymbolRef r).depth = 0 := by
  cases r <;> rfl

/-! ## Expressions -/

/-- The members of an expression's document, beside its operator. -/
def operandMembers : Expr → List (String × Json)
  | .symbol s => [("sym", ofSymbolRef s)]
  | .not operand => [("expr", ofExpr operand)]
  | .compare _ l r => [("left", ofSymbolRef l), ("right", ofSymbolRef r)]
  | .and l r => [("left", ofExpr l), ("right", ofExpr r)]
  | .or l r => [("left", ofExpr l), ("right", ofExpr r)]
  | .listLast member => [("sym", ofSymbolRef member)]
  | .listCons member rest => [("sym", ofSymbolRef member), ("next", ofExpr rest)]
  | .range low high => [("low", ofSymbolRef low), ("high", ofSymbolRef high)]
  | .unknown => []

/-- The document of an expression begins with its operator. -/
theorem ofExpr_eq (e : Expr) :
    ofExpr e = .ofMembers (("op", .text (operatorWord e.kind)) :: operandMembers e) := by
  cases e <;> rfl

/-- An expression is not absent. -/
theorem ofExpr_ne_null (e : Expr) : ofExpr e ≠ .null := by
  rw [ofExpr_eq]
  exact nofun

/-- An expression's operator is its kind. -/
theorem operatorOf?_ofExpr (nested : Bool) (e : Expr) :
    operatorOf? nested (ofExpr e) = some e.kind := by
  rw [ofExpr_eq, Json.ofMembers, List.map_cons, operatorOf?, List.lookup_cons_self,
    Option.bind_some]
  cases e with
  | compare op l r => cases op <;> rfl
  | _ => rfl

/-- No name among the fields of an operator is taken twice. -/
theorem nodup_operandFields (kind : ExprKind) : ("op" :: operandFields kind).Nodup := by
  cases kind <;> simp [operandFields]

/-- An expression's document gives the fields of its operator. -/
theorem fields?_ofExpr (e : Expr) :
    (ofExpr e).fields? ("op" :: operandFields e.kind) =
      some (("op", .text (operatorWord e.kind)) :: operandMembers e) := by
  rw [ofExpr_eq]
  refine Json.fields?_ofMembers (nodup_operandFields e.kind) ?_
  rw [List.map_cons, List.cons_sublist_cons]
  cases e with
  | listLast member => exact List.sublist_append_left ["sym"] ["next"]
  | _ => exact List.Sublist.refl _

/-- The expressions inside an expression, one level down. -/
def operands : Expr → List Expr
  | .not e => [e]
  | .and l r | .or l r => [l, r]
  | .listCons _ rest => [rest]
  | .symbol _ | .compare .. | .listLast _ | .range .. | .unknown => []

/-- What holds of references and of the expressions inside holds of the members. -/
theorem forall_mem_operandMembers {P : Json → Prop} (href : ∀ r, P (ofSymbolRef r)) {e : Expr}
    (h : ∀ e' ∈ operands e, P (ofExpr e')) : ∀ member ∈ operandMembers e, P member.2 := by
  cases e with
  | symbol s | listLast s => simp [operandMembers, href]
  | not e => simpa [operandMembers, operands] using h
  | compare op l r | range l r => simp [operandMembers, href]
  | and l r | or l r => simpa [operandMembers, operands] using h
  | listCons member rest => simpa [operandMembers, operands, href] using h
  | unknown => exact nofun

/-- The document of an expression is plain, if those of its operands are. -/
theorem isPlain_ofExpr_of_operands {e : Expr} (h : ∀ e' ∈ operands e, IsPlain (ofExpr e')) :
    IsPlain (ofExpr e) := by
  rw [ofExpr_eq]
  refine .ofMembers ?_
  rw [List.forall_mem_cons]
  exact ⟨.text _, forall_mem_operandMembers isPlain_ofSymbolRef h⟩

/-- The document of an expression is plain. -/
theorem isPlain_ofExpr (e : Expr) : IsPlain (ofExpr e) := by
  induction e with
  | not e ih => exact isPlain_ofExpr_of_operands (by simpa [operands] using ih)
  | and l r ihl ihr | or l r ihl ihr =>
    exact isPlain_ofExpr_of_operands (by simpa [operands] using ⟨ihl, ihr⟩)
  | listCons member rest ih => exact isPlain_ofExpr_of_operands (by simpa [operands] using ih)
  | symbol | compare | listLast | range | unknown => exact isPlain_ofExpr_of_operands nofun

/-- An expression is one level deeper than those inside. -/
theorem depth_ofExpr_le_iff {e : Expr} {room : Nat} :
    (ofExpr e).depth ≤ room + 1 ↔ ∀ e' ∈ operands e, (ofExpr e').depth ≤ room := by
  rw [ofExpr_eq, Json.depth_ofMembers_le_iff, List.forall_mem_cons]
  cases e with
  | symbol | compare | listLast | range | unknown =>
    simp [operandMembers, operands, Json.text, Json.depth]
  | not e => simp [operandMembers, operands, Json.text, Json.depth]
  | and l r | or l r => simp [operandMembers, operands, Json.text, Json.depth]
  | listCons member rest => simp [operandMembers, operands, Json.text, Json.depth]

/-- The document of an expression is at least one level deep. -/
theorem not_depth_ofExpr_le_zero (e : Expr) : ¬ (ofExpr e).depth ≤ 0 := by
  rw [ofExpr_eq]
  exact Nat.not_succ_le_zero _

/-! ## Reading what was written -/

/-- An expression is what its document is read as. -/
theorem operands?_ofExpr {e : Expr} {room : Nat} (h : (ofExpr e).depth ≤ room) (nested : Bool) :
    operands? room nested (ofExpr e) = some e := by
  induction room generalizing e nested with
  | zero => exact absurd h (not_depth_ofExpr_le_zero e)
  | succ room ih =>
    rw [depth_ofExpr_le_iff] at h
    have hoperands : ∀ e' ∈ operands e, operands? room true (ofExpr e') = some e' := by
      intro e' he'
      exact ih (h e' he') true
    unfold operands?
    simp only [operatorOf?_ofExpr, fields?_ofExpr, Option.bind_eq_bind, Option.bind_some]
    cases e with
    | symbol s | compare op l r | range l r =>
      simp [Expr.kind, operandMembers, Fields.required, List.lookup_cons, symbolRef?_ofSymbolRef]
    | not e =>
      have he := hoperands e (by simp [operands])
      simp [Expr.kind, operandMembers, Fields.required, List.lookup_cons, he]
    | and l r | or l r =>
      have hl := hoperands l (by simp [operands])
      have hr := hoperands r (by simp [operands])
      simp [Expr.kind, operandMembers, Fields.required, List.lookup_cons, hl, hr]
    | listLast member =>
      simp [Expr.kind, operandMembers, Fields.required, Fields.optional, List.lookup_cons,
        symbolRef?_ofSymbolRef]
    | listCons member rest =>
      have hrest := hoperands rest (by simp [operands])
      have hsym : Fields.required
          (("op", .text (operatorWord .list)) :: operandMembers (.listCons member rest)) "sym"
          symbolRef? = some member := by
        simp [operandMembers, Fields.required, List.lookup_cons, symbolRef?_ofSymbolRef]
      have hnext : Fields.optional
          (("op", .text (operatorWord .list)) :: operandMembers (.listCons member rest)) "next"
          (operands? room true) = some (some rest) := by
        refine Fields.optional_of_lookup ofExpr (by simp [operandMembers, List.lookup_cons]) ?_
        rintro e' ⟨⟩
        exact ⟨ofExpr_ne_null rest, hrest⟩
      simp [Expr.kind, hsym, hnext]
    | unknown => rfl

/-- A whole expression, which is looked through before it is read. -/
theorem expr?_ofExpr {e : Expr} {room : Nat} (h : (ofExpr e).depth ≤ room) :
    expr? room (ofExpr e) = some e := by
  have hreadable := Json.readable_of_isPlain (isPlain_ofExpr e) h
  unfold expr?
  rw [if_pos hreadable]
  exact operands?_ofExpr h false

/-! ## Writing what was read -/

/-- The expressions inside one that was read were read with less room. -/
theorem exists_of_operands? {e : Expr} {room : Nat} {nested : Bool} {j : Json}
    (h : operands? (room + 1) nested j = some e) :
    ∀ e' ∈ operands e, ∃ j', operands? room true j' = some e' := by
  simp only [operands?, Option.bind_eq_bind, Option.bind_eq_some_iff] at h
  obtain ⟨kind, -, fields, -, h⟩ := h
  cases kind with
  | symbol | comparison | range =>
    simp only [Option.bind_eq_some_iff] at h
    grind [operands]
  | not =>
    simp only [Option.bind_eq_some_iff] at h
    obtain ⟨e', he', ⟨⟩⟩ := h
    exact List.forall_mem_singleton.mpr (Fields.exists_of_required he')
  | and | or =>
    simp only [Option.bind_eq_some_iff] at h
    obtain ⟨l, hl, r, hr, ⟨⟩⟩ := h
    simp only [operands, List.forall_mem_cons]
    exact ⟨Fields.exists_of_required hl, Fields.exists_of_required hr, nofun⟩
  | list =>
    simp only [Option.bind_eq_some_iff] at h
    obtain ⟨member, -, next, hnext, h⟩ := h
    rcases next with _ | rest
    · cases h
      exact nofun
    · cases h
      exact List.forall_mem_singleton.mpr (Fields.exists_of_optional hnext rest rfl)
  | unknown =>
    cases h
    exact nofun

/-- Reading uses up room for every level of the expression that it finds. -/
theorem depth_le_of_operands? {e : Expr} {room : Nat} {nested : Bool} {j : Json}
    (h : operands? room nested j = some e) : (ofExpr e).depth ≤ room := by
  induction room generalizing e nested j with
  | zero => simp [operands?] at h
  | succ room ih =>
    rw [depth_ofExpr_le_iff]
    intro e' he'
    obtain ⟨j', hj'⟩ := exists_of_operands? h e' he'
    exact ih hj'

/-- An expression read with some room is no deeper than that. -/
theorem depth_le_of_expr? {e : Expr} {room : Nat} {j : Json} (h : expr? room j = some e) :
    (ofExpr e).depth ≤ room := by
  unfold expr? at h
  split at h
  · exact depth_le_of_operands? h
  · cases h

end Kconfig.Interchange
