import Kconfig.Interchange.Decode
import Kconfig.Proofs.Json.Members

/-!
# What the parts of a document are read as

A document that is read as a model has parts that are read as symbols, menus, expressions and so on
(`Interchange.Form`). What a record's members are read as depends on the record's form alone, but
for expressions, where it depends on the operator.

Documents are alike for a form if whoever reads them as it finds the same
(`Interchange.Form.Alike`). For records that is so if the fields they give are alike
(`Interchange.GiveAlike`), for lists if their items are. An array or object that stands for another
value is no value, whatever is inside (`Interchange.IsOpaque`), but for a word that stands as the key
of an object.
-/

namespace Kconfig.Interchange

open Kconfig.Json (Fields)

/-! ## Forms -/

/-- What a part of a document is read as. -/
inductive Form where
  | model
  | capabilities
  | symbol
  | property
  | menu
  | expr (nested : Bool)
  | list (item : Form)
  /-- A value that is no record and no list, or nothing at all: what is passed over. -/
  | other

/-- The operands of an expression and their forms. -/
def operandForms : ExprKind → List (String × Form)
  | .symbol => [("sym", .other)]
  | .not => [("expr", .expr true)]
  | .comparison _ => [("left", .other), ("right", .other)]
  | .and | .or => [("left", .expr true), ("right", .expr true)]
  | .list => [("sym", .other), ("next", .expr true)]
  | .range => [("low", .other), ("high", .other)]
  | .unknown => []

/-- The forms of the operands are listed under the names of their fields. -/
theorem map_fst_operandForms (kind : ExprKind) :
    (operandForms kind).map Prod.fst = operandFields kind := by
  cases kind <;> rfl

namespace Form

/-- The fields of a document that is read as a record, with their forms. -/
def fields (j : Json) : Form → List (String × Form)
  | model => [("capabilities", capabilities), ("symbols", list symbol), ("root", menu)]
  | capabilities => [("choice_members", other), ("optional_choices", other)]
  | symbol =>
    [("name", other), ("type", other), ("flags", other), ("properties", list property),
      ("rev_dep", expr false), ("dir_dep", expr false)]
  | property =>
    [("type", other), ("text", other), ("expr", expr false), ("visible", expr false)]
  | menu =>
    [("flags", other), ("symbol", other), ("dep", expr false), ("choice_members", list other),
      ("children", list menu)]
  | expr nested => ("op", other) :: ((operatorOf? nested j).map operandForms).getD []
  | list _ | other => []

/-- Whether a form is that of a record. -/
def isRecord : Form → Bool
  | model | capabilities | symbol | property | menu | expr _ => true
  | list _ | other => false

end Form

/-- The form of a name among some fields. -/
def formOf (fields : List (String × Form)) (name : String) : Form :=
  (fields.lookup name).getD .other

/-! ## Values -/

/-- Whether a document is an array or object that no value is read from. -/
def IsOpaque : Json → Prop
  | .array _ => True
  | .object members => ∀ word, members ≠ [(some word, .null)]
  | _ => False

section Opaque

variable {j : Json}

/-- No word is read from an array or object that no value is read from. -/
theorem word?_of_isOpaque {α : Type} (words : Words α) (h : IsOpaque j) : word? words j = none := by
  cases j with
  | array items => rfl
  | object members =>
    unfold word?
    split
    · next heq => cases heq
    · next heq =>
      obtain rfl := Json.object.inj heq
      exact absurd rfl (h _)
    · rfl
  | null | bool | number | string => cases h

/-- No text is read from an array or object that no value is read from. -/
theorem text?_of_isOpaque (h : IsOpaque j) : text? j = none := by
  cases j with
  | array | object => rfl
  | null | bool | number | string => cases h

/-- No truth value is read from an array or object that no value is read from. -/
theorem bool?_of_isOpaque (h : IsOpaque j) : bool? j = none := by
  cases j with
  | array | object => rfl
  | null | bool | number | string => cases h

/-- No id is read from an array or object that no value is read from. -/
theorem symbolId?_of_isOpaque (h : IsOpaque j) : symbolId? j = none := by
  cases j with
  | array | object => rfl
  | null | bool | number | string => cases h

/-- No reference is read from an array or object that no value is read from. -/
theorem symbolRef?_of_isOpaque (h : IsOpaque j) : symbolRef? j = none := by
  unfold symbolRef?
  rw [word?_of_isOpaque _ h, symbolId?_of_isOpaque h]
  rfl

/-- No flags of a symbol are read from an array or object that no value is read from. -/
theorem symbolFlags?_of_isOpaque (h : IsOpaque j) : symbolFlags? j = none := by
  rw [symbolFlags?, text?_of_isOpaque h, Option.bind_none]

/-- No flags of a menu are read from an array or object that no value is read from. -/
theorem menuFlags?_of_isOpaque (h : IsOpaque j) : menuFlags? j = none := by
  rw [menuFlags?, text?_of_isOpaque h, Option.bind_none]

/-- No operator is read from an array or object that no value is read from. -/
theorem operator?_of_isOpaque (nested : Bool) (h : IsOpaque j) : operator? nested j = none := by
  cases j with
  | array | object => rfl
  | null | bool | number | string => cases h

end Opaque

/-! ## Documents that are read alike -/

/-- The items of an array. -/
def items? : Json → Option (List Json)
  | .array items => some items
  | _ => none

/-- A list is read item by item, each with one level less. -/
theorem list?_succ {α : Type} (read : Nat → Json → Option α) (room : Nat) (j : Json) :
    list? read (room + 1) j = (items? j).bind fun items => items.mapM (read room) := by
  cases j <;> rfl

namespace Form

/-- Whether two documents are read as the same by whoever reads them as the form. -/
def ReadsAlike : Form → Json → Json → Prop
  | model, j, j' => ∀ room, model? room j' = model? room j
  | capabilities, j, j' => ∀ room, capabilities? room j' = capabilities? room j
  | symbol, j, j' => ∀ room, symbol? room j' = symbol? room j
  | property, j, j' => ∀ room, property? room j' = property? room j
  | menu, j, j' => ∀ room, menu? room j' = menu? room j
  | expr nested, j, j' => ∀ room, operands? room nested j' = operands? room nested j
  | list item, j, j' => Option.Rel (List.Forall₂ item.ReadsAlike) (items? j) (items? j')
  | other, j, j' => j = j' ∨ IsOpaque j ∧ IsOpaque j'

/-- Whether two documents are the same to whoever reads them as the form, or sees if they are there
and can be looked through. -/
structure Alike (form : Form) (j j' : Json) : Prop where
  null : j = .null ↔ j' = .null
  readable : ∀ room, j'.readable room = j.readable room
  reads : form.ReadsAlike j j'

/-- A document is read as what it is read as. -/
theorem ReadsAlike.refl (form : Form) (j : Json) : form.ReadsAlike j j := by
  induction form generalizing j with
  | model | capabilities | symbol | property | menu | expr nested => exact fun _ => rfl
  | list item ih =>
    unfold ReadsAlike
    cases items? j with
    | none => exact .none
    | some items => exact .some (List.forall₂_same.mpr fun j _ => ih j)
  | other => exact .inl rfl

/-- A document is like itself. -/
theorem Alike.refl (form : Form) (j : Json) : form.Alike j j :=
  ⟨.rfl, fun _ => rfl, .refl form j⟩

variable {j j' : Json}

/-- A reader that takes nothing from arrays and objects reads other values alike. -/
theorem ReadsAlike.eq_of_isOpaque {α : Type} {read : Json → Option α}
    (hread : ∀ j, IsOpaque j → read j = none) (h : other.ReadsAlike j j') : read j' = read j := by
  rcases h with rfl | ⟨hj, hj'⟩
  · rfl
  · rw [hread j hj, hread j' hj']

/-- Lists of items that are read alike are read alike. -/
theorem ReadsAlike.list?_eq {α : Type} {item : Form} {read : Nat → Json → Option α}
    (hread : ∀ j j', item.ReadsAlike j j' → ∀ room, read room j' = read room j)
    (h : (list item).ReadsAlike j j') (room : Nat) : list? read room j' = list? read room j := by
  cases room with
  | zero => rfl
  | succ room =>
    rw [list?_succ, list?_succ]
    unfold ReadsAlike at h
    generalize items? j = items, items? j' = items' at h
    cases h with
    | none => rfl
    | some h =>
      simp only [Option.bind_some]
      induction h with
      | nil => rfl
      | cons hitem _ ih => rw [List.mapM_cons, List.mapM_cons, hread _ _ hitem, ih]

/-- An expression by itself is looked through first. -/
theorem Alike.expr?_eq (h : (expr false).Alike j j') (room : Nat) : expr? room j' = expr? room j := by
  unfold expr?
  rw [h.readable, h.reads]

end Form

/-! ## Fields -/

/-- Whether the fields that two documents give are alike, each for its form. -/
def FieldsMatch (forms : List (String × Form)) : Fields → Fields → Prop :=
  Fields.Related fun name => (formOf forms name).Alike

namespace FieldsMatch

variable {α : Type} {forms : List (String × Form)} {fields fields' : Fields}

/-- A field that a value is required of is read alike in fields that are alike. -/
theorem required_value (h : FieldsMatch forms fields fields') (name : String)
    (hform : formOf forms name = .other) {read : Json → Option α}
    (hread : ∀ j, IsOpaque j → read j = none) :
    fields'.required name read = fields.required name read := by
  apply Fields.Related.required_eq h
  intro j j' hj
  rw [hform] at hj
  exact hj.reads.eq_of_isOpaque hread

/-- A field of a value with a default is read alike in fields that are alike. -/
theorem getD_value (h : FieldsMatch forms fields fields') (name : String)
    (hform : formOf forms name = .other) {read : Json → Option α}
    (hread : ∀ j, IsOpaque j → read j = none) (absent : α) :
    fields'.getD name read absent = fields.getD name read absent := by
  apply Fields.Related.getD_eq h
  intro j j' hj
  rw [hform] at hj
  exact hj.reads.eq_of_isOpaque hread

/-- A field of a value that may be absent is read alike in fields that are alike. -/
theorem optional_value (h : FieldsMatch forms fields fields') (name : String)
    (hform : formOf forms name = .other) {read : Json → Option α}
    (hread : ∀ j, IsOpaque j → read j = none) :
    fields'.optional name read = fields.optional name read := by
  apply Fields.Related.optional_eq h
  intro j j' hj
  rw [hform] at hj
  exact ⟨hj.null, hj.reads.eq_of_isOpaque hread⟩

/-- A field of a list with a default is read alike in fields that are alike. -/
theorem getD_list (h : FieldsMatch forms fields fields') (name : String) {item : Form}
    (hform : formOf forms name = .list item) {read : Nat → Json → Option α}
    (hread : ∀ j j', item.ReadsAlike j j' → ∀ room, read room j' = read room j) (room : Nat)
    (absent : List α) :
    fields'.getD name (list? read room) absent = fields.getD name (list? read room) absent := by
  apply Fields.Related.getD_eq h
  intro j j' hj
  rw [hform] at hj
  exact hj.reads.list?_eq hread room

/-- A field of an expression that may be absent is read alike in fields that are alike. -/
theorem optional_expr (h : FieldsMatch forms fields fields') (name : String)
    (hform : formOf forms name = .expr false) (room : Nat) :
    fields'.optional name (expr? room) = fields.optional name (expr? room) := by
  apply Fields.Related.optional_eq h
  intro j j' hj
  rw [hform] at hj
  exact ⟨hj.null, hj.expr?_eq room⟩

/-- An operand that is required is read alike in fields that are alike. -/
theorem required_operand (h : FieldsMatch forms fields fields') (name : String)
    (hform : formOf forms name = .expr true) (room : Nat) :
    fields'.required name (operands? room true) = fields.required name (operands? room true) := by
  apply Fields.Related.required_eq h
  intro j j' hj
  rw [hform] at hj
  exact hj.reads room

/-- An operand that may be absent is read alike in fields that are alike. -/
theorem optional_operand (h : FieldsMatch forms fields fields') (name : String)
    (hform : formOf forms name = .expr true) (room : Nat) :
    fields'.optional name (operands? room true) = fields.optional name (operands? room true) := by
  apply Fields.Related.optional_eq h
  intro j j' hj
  rw [hform] at hj
  exact ⟨hj.null, hj.reads room⟩

end FieldsMatch

/-- Whether two documents give fields that are alike, or none. -/
def GiveAlike (forms : List (String × Form)) (j j' : Json) : Prop :=
  Option.Rel (FieldsMatch forms) (j.fields? (forms.map Prod.fst)) (j'.fields? (forms.map Prod.fst))

/-- A document gives the fields that it gives. -/
theorem GiveAlike.refl (forms : List (String × Form)) (j : Json) : GiveAlike forms j j := by
  unfold GiveAlike
  cases j.fields? (forms.map Prod.fst) with
  | none => exact .none
  | some fields =>
    refine .some fun name => ?_
    cases fields.lookup name with
    | none => exact .none
    | some value => exact .some (.refl _ value)

/-- What is made of the fields is the same if it is so of fields that are alike. -/
theorem GiveAlike.bind_eq {α : Type} {forms : List (String × Form)} {j j' : Json}
    {make : Fields → Option α} (h : GiveAlike forms j j')
    (hmake : ∀ fields fields', FieldsMatch forms fields fields' → make fields' = make fields) :
    (j'.fields? (forms.map Prod.fst)).bind make = (j.fields? (forms.map Prod.fst)).bind make := by
  unfold GiveAlike at h
  generalize j.fields? _ = fields, j'.fields? _ = fields' at h
  cases h with
  | none => rfl
  | some hfields => exact hmake _ _ hfields

/-! ## Records -/

section Records

variable {j j' : Json}

/-- What is made of a record is made of the fields that it gives. -/
theorem record?_bind {α : Type} (names : List String) (room : Nat) (j : Json)
    (make : Nat × Fields → Option α) :
    (record? names (room + 1) j).bind make = (j.fields? names).bind fun fields =>
      make (room, fields) := by
  simp only [record?, Option.bind_map]
  rfl

/-- Capabilities are read alike from documents that give the same. -/
theorem capabilities?_eq (h : GiveAlike (Form.capabilities.fields j) j j') (room : Nat) :
    capabilities? room j' = capabilities? room j := by
  cases room with
  | zero => rfl
  | succ room =>
    simp only [capabilities?, Option.bind_eq_bind, record?_bind]
    refine h.bind_eq fun fields fields' hf => ?_
    rw [hf.getD_value "choice_members" rfl fun _ => word?_of_isOpaque choiceShapes,
      hf.getD_value "optional_choices" rfl fun _ => bool?_of_isOpaque]

/-- A property is read alike from documents that give the same. -/
theorem property?_eq (h : GiveAlike (Form.property.fields j) j j') (room : Nat) :
    property? room j' = property? room j := by
  cases room with
  | zero => rfl
  | succ room =>
    simp only [property?, Option.bind_eq_bind, record?_bind]
    refine h.bind_eq fun fields fields' hf => ?_
    rw [hf.required_value "type" rfl fun _ => word?_of_isOpaque propertyKinds,
      hf.optional_value "text" rfl fun _ => text?_of_isOpaque, hf.optional_expr "expr" rfl,
      hf.optional_expr "visible" rfl]

/-- A symbol is read alike from documents that give the same. -/
theorem symbol?_eq (h : GiveAlike (Form.symbol.fields j) j j') (room : Nat) :
    symbol? room j' = symbol? room j := by
  cases room with
  | zero => rfl
  | succ room =>
    simp only [symbol?, Option.bind_eq_bind, record?_bind]
    refine h.bind_eq fun fields fields' hf => ?_
    rw [hf.optional_value "name" rfl fun _ => text?_of_isOpaque,
      hf.getD_value "type" rfl fun _ => word?_of_isOpaque symbolKinds,
      hf.getD_value "flags" rfl fun _ => symbolFlags?_of_isOpaque,
      hf.getD_list "properties" rfl fun _ _ hj => hj, hf.optional_expr "rev_dep" rfl,
      hf.optional_expr "dir_dep" rfl]

/-- The children of a menu are a list like others. -/
theorem menu?_succ (room : Nat) (j : Json) :
    menu? (room + 1) j = (j.fields? menuFields).bind fun fields => do
      return {
        flags := ← fields.getD "flags" menuFlags? .none
        symbol := ← fields.optional "symbol" symbolId?
        dep := ← fields.optional "dep" (expr? room)
        choiceMembers := ← fields.getD "choice_members" (list? (fun _ => symbolId?) room) []
        children := ← fields.getD "children" (list? menu? room) [] } := by
  simp only [menu?, Option.bind_eq_bind, Fields.getD]
  refine congrArg _ (funext fun fields => ?_)
  rcases fields.lookup "children" with _ | value
  · rfl
  · cases room <;> cases value <;> rfl

/-- A menu and all that is below it is read alike from documents that give the same. -/
theorem menu?_eq (h : GiveAlike (Form.menu.fields j) j j') (room : Nat) :
    menu? room j' = menu? room j := by
  cases room with
  | zero => rfl
  | succ room =>
    rw [menu?_succ, menu?_succ]
    refine h.bind_eq fun fields fields' hf => ?_
    have hids : ∀ j j', Form.other.ReadsAlike j j' → ∀ _room : Nat, symbolId? j' = symbolId? j :=
      fun _ _ hj _ => hj.eq_of_isOpaque fun _ => symbolId?_of_isOpaque
    rw [hf.getD_value "flags" rfl fun _ => menuFlags?_of_isOpaque,
      hf.optional_value "symbol" rfl fun _ => symbolId?_of_isOpaque, hf.optional_expr "dep" rfl,
      hf.getD_list "choice_members" rfl hids, hf.getD_list "children" rfl fun _ _ hj => hj]

/-- A model is read alike from documents that give the same. -/
theorem model?_eq (h : GiveAlike (Form.model.fields j) j j') (room : Nat) :
    model? room j' = model? room j := by
  cases room with
  | zero => rfl
  | succ room =>
    simp only [model?, Option.bind_eq_bind, record?_bind]
    refine h.bind_eq fun fields fields' hf => ?_
    have hcapabilities : fields'.getD "capabilities" (capabilities? room) {} =
        fields.getD "capabilities" (capabilities? room) {} := by
      apply Fields.Related.getD_eq hf
      intro j j' hj
      exact hj.reads room
    have hroot : fields'.getD "root" (menu? room) {} = fields.getD "root" (menu? room) {} := by
      apply Fields.Related.getD_eq hf
      intro j j' hj
      exact hj.reads room
    rw [hcapabilities, hf.getD_list "symbols" rfl fun _ _ hj => hj, hroot]

/-- Expressions of one operator are read from their operands. -/
theorem operands?_eq {nested : Bool} {kind : ExprKind} (hj : operatorOf? nested j = some kind)
    (hj' : operatorOf? nested j' = some kind)
    (h : GiveAlike (("op", .other) :: operandForms kind) j j') (room : Nat) :
    operands? room nested j' = operands? room nested j := by
  cases room with
  | zero => rfl
  | succ room =>
    simp only [operands?, hj, hj', Option.bind_eq_bind, Option.bind_some]
    rw [← map_fst_operandForms]
    refine h.bind_eq fun fields fields' hf => ?_
    cases kind with
    | symbol => rw [hf.required_value "sym" rfl fun _ => symbolRef?_of_isOpaque]
    | not => rw [hf.required_operand "expr" rfl]
    | comparison op =>
      rw [hf.required_value "left" rfl fun _ => symbolRef?_of_isOpaque,
        hf.required_value "right" rfl fun _ => symbolRef?_of_isOpaque]
    | and => rw [hf.required_operand "left" rfl, hf.required_operand "right" rfl]
    | or => rw [hf.required_operand "left" rfl, hf.required_operand "right" rfl]
    | list =>
      rw [hf.required_value "sym" rfl fun _ => symbolRef?_of_isOpaque,
        hf.optional_operand "next" rfl]
    | range =>
      rw [hf.required_value "low" rfl fun _ => symbolRef?_of_isOpaque,
        hf.required_value "high" rfl fun _ => symbolRef?_of_isOpaque]
    | unknown => rfl

end Records

end Kconfig.Interchange
