import Kconfig.Proofs.Interchange.Expression
import Kconfig.Proofs.Text.FlagWord

/-!
# Symbols in JSON form

What holds of expressions holds of properties and of symbols: each is what its document is read as
where there is room for the document, and what was read has a document for which there is room.
Fields that are left out are read as what made them be left out.
-/

namespace Kconfig.Interchange

open Kconfig.Json (Fields IsPlain)

/-! ## Fields -/

section

variable {α : Type} (name : String) (write : α → Json)

/-- A field is looked up under its name, and under no other. -/
theorem lookup_field (value : Option α) (key : String) :
    (field name write value).lookup key = if key = name then value.map write else none := by
  rcases value with _ | a
  · simp [field]
  · by_cases h : key = name
    · simp [field, h]
    · simp [field, List.lookup_cons, h, beq_eq_false_iff_ne.mpr h]

/-- A list field is looked up under its name, if it has items. -/
theorem lookup_listField (items : List α) (key : String) :
    (listField name write items).lookup key =
      if key = name ∧ items ≠ [] then some (.array (items.map write)) else none := by
  cases items with
  | nil => simp [listField]
  | cons a items =>
    by_cases h : key = name
    · simp [listField, h]
    · simp [listField, List.lookup_cons, h, beq_eq_false_iff_ne.mpr h]

/-- A field has no key but its name, and has it once at most. -/
theorem keys_field (value : Option α) : ((field name write value).map Prod.fst).Sublist [name] := by
  rcases value with _ | a
  · exact List.nil_sublist _
  · exact List.Sublist.refl _

/-- A list field has no key but its name, and has it once at most. -/
theorem keys_listField (items : List α) :
    ((listField name write items).map Prod.fst).Sublist [name] := by
  cases items with
  | nil => exact List.nil_sublist _
  | cons a items => exact List.Sublist.refl _

/-- What is true of the members of a field is true of its value, if it has one. -/
theorem forall_mem_field {P : Json → Prop} {value : Option α} :
    (∀ member ∈ field name write value, P member.2) ↔ ∀ a ∈ value, P (write a) := by
  rcases value with _ | a
  · exact iff_of_true nofun nofun
  · simp [field]

/-- What is true of the members of a list field is true of the array of its items, if it has some.
-/
theorem forall_mem_listField {P : Json → Prop} {items : List α} :
    (∀ member ∈ listField name write items, P member.2) ↔
      (items ≠ [] → P (.array (items.map write))) := by
  cases items with
  | nil => exact iff_of_true nofun (absurd rfl)
  | cons a items => simp [listField]

/-- A field is no deeper than its value. -/
theorem depth_field_le_iff {value : Option α} {room : Nat} :
    (∀ member ∈ field name write value, member.2.depth ≤ room) ↔
      ∀ a ∈ value, (write a).depth ≤ room :=
  forall_mem_field name write (P := fun j => j.depth ≤ room)

/-- A list that is not left out takes a level of its own. -/
theorem depth_listField_le_iff {items : List α} {room : Nat} :
    (∀ member ∈ listField name write items, member.2.depth ≤ room) ↔
      (items ≠ [] → ∃ room', room = room' + 1 ∧ ∀ a ∈ items, (write a).depth ≤ room') := by
  rw [forall_mem_listField name write (P := fun j => j.depth ≤ room)]
  apply imp_congr_right
  intro _
  cases room with
  | zero =>
    refine iff_of_false (Nat.not_succ_le_zero _) ?_
    rintro ⟨room', h, -⟩
    exact absurd h.symm (Nat.succ_ne_zero room')
  | succ room =>
    rw [Json.depth_array_le_iff, List.forall_mem_map]
    constructor
    · intro h
      exact ⟨room, rfl, h⟩
    · rintro ⟨room', heq, h⟩
      rwa [Nat.succ.inj heq]

end

/-- Items are what their documents are read as. -/
theorem mapM_map {α : Type} {read : Json → Option α} {write : α → Json} {items : List α}
    (h : ∀ a ∈ items, read (write a) = some a) : (items.map write).mapM read = some items := by
  induction items with
  | nil => rfl
  | cons a items ih =>
    rw [List.forall_mem_cons] at h
    rw [List.map_cons, List.mapM_cons, h.1, ih h.2]
    rfl

/-- The items of a list that was read were read with less room. -/
theorem exists_of_mapM {α : Type} {read : Json → Option α} {js : List Json} {items : List α}
    (h : js.mapM read = some items) : ∀ a ∈ items, ∃ j, read j = some a := by
  induction js generalizing items with
  | nil =>
    cases h
    exact nofun
  | cons j js ih =>
    rw [List.mapM_cons] at h
    simp only [Option.bind_eq_bind, Option.bind_eq_some_iff] at h
    obtain ⟨a, ha, items', hitems, ⟨⟩⟩ := h
    exact List.forall_mem_cons.mpr ⟨⟨j, ha⟩, ih hitems⟩

/-- The items of a list that can be read were read with one level less. -/
theorem exists_of_list? {α : Type} {read : Nat → Json → Option α} {room : Nat} {j : Json}
    {items : List α} (h : list? read room j = some items) :
    ∃ room', room = room' + 1 ∧ ∀ a ∈ items, ∃ j', read room' j' = some a := by
  unfold list? at h
  split at h
  · exact ⟨_, rfl, exists_of_mapM h⟩
  · cases h

/-! ## Words -/

/-- The word for a property's kind is read back as the kind. -/
theorem word?_propertyKind (kind : PropertyKind) :
    word? propertyKinds (.text kind.label) = some kind := by
  cases kind <;> rfl

/-- The word for a symbol's kind is read back as the kind. -/
theorem word?_symbolKind (kind : SymbolKind) :
    word? symbolKinds (.text kind.label) = some kind := by
  cases kind <;> rfl

/-- The word for a shape of choices is read back as the shape. -/
theorem word?_choiceShape (shape : ChoiceShape) :
    word? choiceShapes (.text shape.label) = some shape := by
  cases shape <;> rfl

/-- The flags of a symbol are read back. -/
theorem symbolFlags?_ofSymbolFlags (flags : SymbolFlags) :
    symbolFlags? (ofSymbolFlags flags) = some flags := by
  simp only [symbolFlags?, ofSymbolFlags, Json.text, text?, Option.bind_some,
    FlagNames.read?_write SymbolFlags.names_isSound, Option.map_some]

/-- The flags of a menu are read back. -/
theorem menuFlags?_ofMenuFlags (flags : MenuFlags) :
    menuFlags? (ofMenuFlags flags) = some flags := by
  simp only [menuFlags?, ofMenuFlags, Json.text, text?, Option.bind_some,
    FlagNames.read?_write MenuFlags.names_isSound, Option.map_some]

/-- A field for a text. -/
theorem optional_text {fields : Fields} {name : String} {value : Option String}
    (h : fields.lookup name = value.map Json.text) :
    fields.optional name text? = some value :=
  Fields.optional_of_lookup Json.text h fun _ _ => ⟨nofun, rfl⟩

/-- A field for an expression. -/
theorem optional_expr {fields : Fields} {name : String} {value : Option Expr} {room : Nat}
    (h : fields.lookup name = value.map ofExpr) (hroom : ∀ e ∈ value, (ofExpr e).depth ≤ room) :
    fields.optional name (expr? room) = some value :=
  Fields.optional_of_lookup ofExpr h fun e he => ⟨ofExpr_ne_null e, expr?_ofExpr (hroom e he)⟩

/-- An expression read from an optional field with some room is no deeper than that. -/
theorem depth_le_of_optional_expr {fields : Fields} {name : String} {value : Option Expr}
    {room : Nat} (h : fields.optional name (expr? room) = some value) :
    ∀ e ∈ value, (ofExpr e).depth ≤ room := by
  intro e he
  obtain ⟨j, hj⟩ := Fields.exists_of_optional h e he
  exact depth_le_of_expr? hj

/-! ## Properties -/

/-- The members of a property's document. -/
def propertyMembers (p : Property) : List (String × Json) :=
  [("type", .text p.kind.label)] ++ field "text" .text p.text ++ field "expr" ofExpr p.expr ++
    field "visible" ofExpr p.visible

/-- The document of a property gives its members back as fields. -/
theorem fields?_ofProperty (p : Property) :
    (ofProperty p).fields? propertyFields = some (propertyMembers p) := by
  refine Json.fields?_ofMembers (by decide) ?_
  simp only [List.map_append]
  exact (((List.Sublist.refl ["type"]).append (keys_field ..)).append (keys_field ..)).append
    (keys_field ..)

/-- The document of a property is plain. -/
theorem isPlain_ofProperty (p : Property) : IsPlain (ofProperty p) := by
  refine .ofMembers ?_
  simp only [List.forall_mem_append, List.forall_mem_singleton, forall_mem_field]
  refine ⟨⟨⟨.text _, ?_⟩, ?_⟩, ?_⟩
  · intro text _
    exact .text text
  · intro e _
    exact isPlain_ofExpr e
  · intro e _
    exact isPlain_ofExpr e

/-- The document of a property is one level deeper than its expressions, at least. -/
theorem depth_ofProperty_le_iff {p : Property} {room : Nat} :
    (ofProperty p).depth ≤ room + 1 ↔
      (∀ e ∈ p.expr, (ofExpr e).depth ≤ room) ∧ ∀ e ∈ p.visible, (ofExpr e).depth ≤ room := by
  unfold ofProperty
  rw [Json.depth_ofMembers_le_iff]
  simp only [List.forall_mem_append, List.forall_mem_singleton, depth_field_le_iff]
  constructor
  · rintro ⟨⟨-, hexpr⟩, hvisible⟩
    exact ⟨hexpr, hvisible⟩
  · rintro ⟨hexpr, hvisible⟩
    refine ⟨⟨⟨Nat.zero_le _, ?_⟩, hexpr⟩, hvisible⟩
    intro text _
    exact Nat.zero_le _

/-- A property is what its document is read as. -/
theorem property?_ofProperty {p : Property} {room : Nat} (h : (ofProperty p).depth ≤ room) :
    property? room (ofProperty p) = some p := by
  cases room with
  | zero => exact absurd h (Nat.not_succ_le_zero _)
  | succ room =>
    rw [depth_ofProperty_le_iff] at h
    have htype : (propertyMembers p).lookup "type" = some (.text p.kind.label) := by
      simp [propertyMembers]
    have htext : (propertyMembers p).lookup "text" = p.text.map .text := by
      simp [propertyMembers, List.lookup_append, List.lookup_cons, lookup_field]
    have hexpr : (propertyMembers p).lookup "expr" = p.expr.map ofExpr := by
      simp [propertyMembers, List.lookup_append, List.lookup_cons, lookup_field]
    have hvisible : (propertyMembers p).lookup "visible" = p.visible.map ofExpr := by
      simp [propertyMembers, List.lookup_append, List.lookup_cons, lookup_field]
    simp [property?, record?, fields?_ofProperty, Fields.required_of_lookup htype,
      word?_propertyKind, optional_text htext, optional_expr hexpr h.1,
      optional_expr hvisible h.2]

/-- Reading uses up room for every level of the property that it finds. -/
theorem depth_le_of_property? {p : Property} {room : Nat} {j : Json}
    (h : property? room j = some p) : (ofProperty p).depth ≤ room := by
  cases room with
  | zero => simp [property?, record?] at h
  | succ room =>
    simp only [property?, record?, Option.bind_eq_bind, Option.bind_eq_some_iff,
      Option.map_eq_some_iff] at h
    obtain ⟨_, ⟨fields, -, rfl⟩, _, -, _, -, expr, hexpr, visible, hvisible, ⟨⟩⟩ := h
    rw [depth_ofProperty_le_iff]
    exact ⟨depth_le_of_optional_expr hexpr, depth_le_of_optional_expr hvisible⟩

/-! ## Symbols -/

/-- The members of a symbol's document. -/
def symbolMembers (s : Symbol) : List (String × Json) :=
  field "name" .text s.name ++ [("type", .text s.kind.label), ("flags", ofSymbolFlags s.flags)] ++
    listField "properties" ofProperty s.properties ++ field "rev_dep" ofExpr s.revDep ++
    field "dir_dep" ofExpr s.dirDep

/-- The document of a symbol gives its members back as fields. -/
theorem fields?_ofSymbol (s : Symbol) :
    (ofSymbol s).fields? symbolFields = some (symbolMembers s) := by
  refine Json.fields?_ofMembers (by decide) ?_
  simp only [List.map_append]
  exact ((((keys_field ..).append (List.Sublist.refl ["type", "flags"])).append
    (keys_listField ..)).append (keys_field ..)).append (keys_field ..)

/-- The document of a symbol is plain. -/
theorem isPlain_ofSymbol (s : Symbol) : IsPlain (ofSymbol s) := by
  refine .ofMembers ?_
  simp only [List.forall_mem_append, List.forall_mem_cons, forall_mem_field, forall_mem_listField]
  refine ⟨⟨⟨⟨?_, .text _, .text _, nofun⟩, ?_⟩, ?_⟩, ?_⟩
  · intro name _
    exact .text name
  · intro _
    apply IsPlain.array
    rw [List.forall_mem_map]
    intro p _
    exact isPlain_ofProperty p
  · intro e _
    exact isPlain_ofExpr e
  · intro e _
    exact isPlain_ofExpr e

/-- The document of a symbol is two levels deeper than its properties and one level deeper than its
dependencies, at least. -/
theorem depth_ofSymbol_le_iff {s : Symbol} {room : Nat} :
    (ofSymbol s).depth ≤ room + 1 ↔
      (s.properties ≠ [] → ∃ room', room = room' + 1 ∧
        ∀ p ∈ s.properties, (ofProperty p).depth ≤ room') ∧
      (∀ e ∈ s.revDep, (ofExpr e).depth ≤ room) ∧ ∀ e ∈ s.dirDep, (ofExpr e).depth ≤ room := by
  unfold ofSymbol
  rw [Json.depth_ofMembers_le_iff]
  simp only [List.forall_mem_append, List.forall_mem_cons, depth_field_le_iff,
    depth_listField_le_iff]
  constructor
  · rintro ⟨⟨⟨-, hproperties⟩, hrevDep⟩, hdirDep⟩
    exact ⟨hproperties, hrevDep, hdirDep⟩
  · rintro ⟨hproperties, hrevDep, hdirDep⟩
    refine ⟨⟨⟨⟨?_, Nat.zero_le _, Nat.zero_le _, nofun⟩, hproperties⟩, hrevDep⟩, hdirDep⟩
    intro name _
    exact Nat.zero_le _

/-- A list of a record is what its field is read as, where the field is left out for want of
items. -/
theorem getD_list {α : Type} {fields : Fields} {name : String} {read : Nat → Json → Option α}
    {write : α → Json} {items : List α} {room : Nat}
    (h : fields.lookup name = if items ≠ [] then some (.array (items.map write)) else none)
    (hread : items ≠ [] → ∃ room', room = room' + 1 ∧
      ∀ a ∈ items, read room' (write a) = some a) :
    fields.getD name (list? read room) [] = some items := by
  cases items with
  | nil => exact Fields.getD_of_lookup_eq_none h
  | cons a items =>
    obtain ⟨room', rfl, hitems⟩ := hread (List.cons_ne_nil a items)
    rw [Fields.getD_of_lookup h]
    exact mapM_map hitems

/-- A symbol is what its document is read as. -/
theorem symbol?_ofSymbol {s : Symbol} {room : Nat} (h : (ofSymbol s).depth ≤ room) :
    symbol? room (ofSymbol s) = some s := by
  cases room with
  | zero => exact absurd h (Nat.not_succ_le_zero _)
  | succ room =>
    rw [depth_ofSymbol_le_iff] at h
    obtain ⟨hproperties, hrevDep, hdirDep⟩ := h
    have hname : (symbolMembers s).lookup "name" = s.name.map .text := by
      simp [symbolMembers, List.lookup_append, List.lookup_cons, lookup_field, lookup_listField]
    have htype : (symbolMembers s).lookup "type" = some (.text s.kind.label) := by
      simp [symbolMembers, List.lookup_append, lookup_field]
    have hflags : (symbolMembers s).lookup "flags" = some (ofSymbolFlags s.flags) := by
      simp [symbolMembers, List.lookup_append, List.lookup_cons, lookup_field]
    have hlist : (symbolMembers s).lookup "properties" =
        if s.properties ≠ [] then some (.array (s.properties.map ofProperty)) else none := by
      simp [symbolMembers, List.lookup_append, List.lookup_cons, lookup_field, lookup_listField]
    have hrev : (symbolMembers s).lookup "rev_dep" = s.revDep.map ofExpr := by
      simp [symbolMembers, List.lookup_append, List.lookup_cons, lookup_field, lookup_listField]
    have hdir : (symbolMembers s).lookup "dir_dep" = s.dirDep.map ofExpr := by
      simp [symbolMembers, List.lookup_append, List.lookup_cons, lookup_field, lookup_listField]
    have hitems : Fields.getD (symbolMembers s) "properties" (list? property? room) [] =
        some s.properties := by
      apply getD_list hlist
      intro hne
      obtain ⟨room', rfl, hdepth⟩ := hproperties hne
      refine ⟨room', rfl, ?_⟩
      intro p hp
      exact property?_ofProperty (hdepth p hp)
    simp [symbol?, record?, fields?_ofSymbol, optional_text hname, Fields.getD_of_lookup htype,
      word?_symbolKind, Fields.getD_of_lookup hflags, symbolFlags?_ofSymbolFlags, hitems,
      optional_expr hrev hrevDep, optional_expr hdir hdirDep]

/-- Reading uses up room for every level of the symbol that it finds. -/
theorem depth_le_of_symbol? {s : Symbol} {room : Nat} {j : Json} (h : symbol? room j = some s) :
    (ofSymbol s).depth ≤ room := by
  cases room with
  | zero => simp [symbol?, record?] at h
  | succ room =>
    simp only [symbol?, record?, Option.bind_eq_bind, Option.bind_eq_some_iff,
      Option.map_eq_some_iff] at h
    obtain ⟨_, ⟨fields, -, rfl⟩, name, -, kind, -, flags, -, properties, hproperties, revDep,
      hrevDep, dirDep, hdirDep, ⟨⟩⟩ := h
    rw [depth_ofSymbol_le_iff]
    refine ⟨?_, depth_le_of_optional_expr hrevDep, depth_le_of_optional_expr hdirDep⟩
    intro hne
    rcases Fields.exists_of_getD hproperties with rfl | ⟨j', hlist⟩
    · exact absurd rfl hne
    · obtain ⟨room', hroom, hread⟩ := exists_of_list? hlist
      refine ⟨room', hroom, ?_⟩
      intro p hp
      obtain ⟨j'', hj''⟩ := hread p hp
      exact depth_le_of_property? hj''

end Kconfig.Interchange
