import Kconfig.Model.Load
import Kconfig.Proofs.Interchange.Form
import Mathlib.Logic.Relation

/-!
# What a document may be changed in

Two things about a document are of no account to whoever reads it as a model: in which order the
members of its objects stand, and which members its records have beside their fields, as long as
their values are scalars. `Interchange.Change` is one such change, at any depth; which names a
record has for itself is settled by what it is read as, and for an expression by its operator.

A change is not seen by those who read what is around it (`Interchange.Change.alike`), so changed
documents are read as the same model, or neither is read as one
(`Interchange.model?_eq_of_changes`).
-/

namespace Kconfig.Interchange

/-! ## Changes -/

namespace Form

/-- The form of a member of an object. -/
def ofMember (form : Form) (j : Json) : Spelling → Form
  | some key => formOf (form.fields j) key
  | none => other

/-- The form of an item of an array, by its place. A record may be given as the array of its
fields. -/
def ofItem (form : Form) (j : Json) (place : Nat) : Form :=
  match form with
  | list item => item
  | form => ((((form.fields j).map Prod.fst)[place]?).map (formOf (form.fields j))).getD other

end Form

/-- A change to a document that is read as the form. -/
inductive Change : Form → Json → Json → Prop where
  /-- The members of an object stand in another order. -/
  | reorder {form : Form} {members members' : List (Spelling × Json)}
    (h : members.Perm members') : Change form (.object members) (.object members')
  /-- A record has one more member, which is none of its fields. Its value is `null`, a truth value,
  a finite number or a text: these are what can be read without room. -/
  | insert {form : Form} {before after : List (Spelling × Json)} {key : String} {value : Json}
    (hrecord : form.isRecord)
    (hkey : key ∉ (form.fields (.object (before ++ after))).map Prod.fst)
    (hvalue : value.readable 0) :
    Change form (.object (before ++ after)) (.object (before ++ (some key, value) :: after))
  /-- There is a change inside a member. -/
  | member {form : Form} {before after : List (Spelling × Json)} {key : Spelling}
    {value value' : Json}
    (h : Change (form.ofMember (.object (before ++ (key, value) :: after)) key) value value') :
    Change form (.object (before ++ (key, value) :: after))
      (.object (before ++ (key, value') :: after))
  /-- There is a change inside an item. -/
  | item {form : Form} {before after : List Json} {value value' : Json}
    (h : Change (form.ofItem (.array (before ++ value :: after)) before.length) value value') :
    Change form (.array (before ++ value :: after)) (.array (before ++ value' :: after))

/-! ## Reading what was changed -/

section Steps

variable {form : Form} {j j' : Json}

/-- A document without fields is no expression. -/
theorem operands?_eq_none {nested : Bool}
    (h : ∀ kind ∈ operatorOf? nested j, j.fields? ("op" :: operandFields kind) = none)
    (room : Nat) : operands? room nested j = none := by
  cases room with
  | zero => rfl
  | succ room =>
    cases hkind : operatorOf? nested j with
    | none => simp only [operands?, hkind, Option.bind_eq_bind, Option.bind_none]
    | some kind =>
      simp only [operands?, hkind, h kind hkind, Option.bind_eq_bind, Option.bind_some,
        Option.bind_none]

/-- Where the fields are alike, so is what is read, if the operator of an expression is the same. -/
theorem readsAlike_of_giveAlike (h : GiveAlike (form.fields j) j j')
    (hexpr : ∀ nested, form = .expr nested → operatorOf? nested j' = operatorOf? nested j)
    (hlist : ∀ item, form = .list item → form.ReadsAlike j j')
    (hother : form = .other → form.ReadsAlike j j') : form.ReadsAlike j j' := by
  cases form with
  | model => exact model?_eq h
  | capabilities => exact capabilities?_eq h
  | symbol => exact symbol?_eq h
  | property => exact property?_eq h
  | menu => exact menu?_eq h
  | expr nested =>
    intro room
    have hoperator := hexpr nested rfl
    cases hkind : operatorOf? nested j with
    | none =>
      have hnone : ∀ j, operatorOf? nested j = none → operands? room nested j = none := by
        intro j hj
        apply operands?_eq_none
        rw [hj]
        exact nofun
      rw [hnone j hkind, hnone j' (hoperator.trans hkind)]
    | some kind =>
      rw [Form.fields, hkind] at h
      rw [hkind] at hoperator
      exact operands?_eq hkind hoperator h room
  | list item => exact hlist item rfl
  | other => exact hother rfl

/-- An object is a word or it is none, whatever else is in it. -/
theorem readsAlike_other {members members' : List (Spelling × Json)}
    (h : ∀ word, members = [(some word, .null)] ↔ members' = [(some word, .null)]) :
    Form.other.ReadsAlike (.object members) (.object members') := by
  by_cases hword : ∃ word, members = [(some word, .null)]
  · obtain ⟨word, hmembers⟩ := hword
    rw [hmembers, (h word).mp hmembers]
    exact .inl rfl
  · rw [not_exists] at hword
    exact .inr ⟨hword, fun word => mt (h word).mpr (hword word)⟩

/-! ### Members in another order -/

variable {members members' : List (Spelling × Json)}

/-- An object gives the same fields in another order of its members. -/
theorem giveAlike_reorder (h : members.Perm members') (forms : List (String × Form)) :
    GiveAlike forms (.object members) (.object members') :=
  Json.fields?_perm (fun name => Form.Alike.refl (formOf forms name)) h (forms.map Prod.fst)

/-- Where there are fields, the operator is among them, so their order is of no account to it. -/
theorem operatorOf?_reorder (h : members.Perm members') (nested : Bool) {names : List String}
    (hfields : (Json.object members).fields? ("op" :: names) ≠ none) :
    operatorOf? nested (.object members') = operatorOf? nested (.object members) := by
  have hrel := Json.fields?_perm (R := fun _ => Eq) (fun _ _ => rfl) h ("op" :: names)
  rcases hsome : (Json.object members).fields? ("op" :: names) with _ | fields
  · exact absurd hsome hfields
  · rcases hsome' : (Json.object members').fields? ("op" :: names) with _ | fields'
    · rw [hsome, hsome'] at hrel
      cases hrel
    · rw [hsome, hsome'] at hrel
      cases hrel with
      | some hrelated =>
        have hop := hrelated "op"
        rw [Json.lookup_of_fields? hsome List.mem_cons_self,
          Json.lookup_of_fields? hsome' List.mem_cons_self] at hop
        have hlookup : members.lookup (some "op") = members'.lookup (some "op") := by
          generalize members.lookup (some "op") = value, members'.lookup (some "op") = value' at hop
          cases hop with
          | none => rfl
          | some heq => rw [heq]
        rw [operatorOf?, operatorOf?, hlookup]

/-- Operands are read alike from an object in another order of its members. -/
theorem operands?_reorder (h : members.Perm members') (nested : Bool) (room : Nat) :
    operands? room nested (.object members') = operands? room nested (.object members) := by
  by_cases hoperator : operatorOf? nested (.object members') = operatorOf? nested (.object members)
  · have halike : (Form.expr nested).ReadsAlike (.object members) (.object members') := by
      refine readsAlike_of_giveAlike (giveAlike_reorder h _) ?_ nofun nofun
      rintro _ ⟨⟩
      exact hoperator
    exact halike room
  · -- the operator is given twice, and so neither is an expression
    have hnone : ∀ names : List String,
        (Json.object members).fields? ("op" :: names) = none ∧
          (Json.object members').fields? ("op" :: names) = none := by
      intro names
      constructor
      · by_contra hfields
        exact hoperator (operatorOf?_reorder h nested hfields)
      · by_contra hfields
        exact hoperator (operatorOf?_reorder h.symm nested hfields).symm
    rw [operands?_eq_none fun kind _ => (hnone _).1, operands?_eq_none fun kind _ => (hnone _).2]

/-- An object is the same to its readers in another order of its members. -/
theorem alike_reorder (h : members.Perm members') (form : Form) :
    form.Alike (.object members) (.object members') := by
  refine ⟨iff_of_false nofun nofun, ?_, ?_⟩
  · intro room
    cases room with
    | zero => rfl
    | succ room => rw [Json.readable, Json.readable, h.all_eq]
  · cases form with
    | model | capabilities | symbol | property | menu =>
      exact readsAlike_of_giveAlike (giveAlike_reorder h _) nofun nofun nofun
    | expr nested => exact operands?_reorder h nested
    | list item => exact .none
    | other =>
      apply readsAlike_other
      intro word
      constructor
      · rintro rfl
        exact (List.singleton_perm.mp h).symm
      · rintro rfl
        exact List.perm_singleton.mp h

/-! ### One more member -/

variable {before after : List (Spelling × Json)}

/-- A value without arrays and objects that can be read can be read with any room. -/
theorem readable_of_scalar {value : Json} (h : value.readable 0) (room : Nat) :
    value.readable room := by
  cases room with
  | zero => exact h
  | succ room =>
    cases value with
    | null | bool | number | string => exact h
    | array | object => cases h

/-- A member that is no field of the record changes none of the fields. -/
theorem giveAlike_insert {forms : List (String × Form)} {key : String}
    (hkey : key ∉ forms.map Prod.fst) (value : Json) :
    GiveAlike forms (.object (before ++ after)) (.object (before ++ (some key, value) :: after)) := by
  unfold GiveAlike
  rw [Json.fields?_insert hkey]
  exact GiveAlike.refl forms _

/-- A record is the same to its readers with one more member that is none of its fields. -/
theorem alike_insert (hrecord : form.isRecord) {key : String}
    (hkey : key ∉ (form.fields (.object (before ++ after))).map Prod.fst) {value : Json}
    (hvalue : value.readable 0) :
    form.Alike (.object (before ++ after)) (.object (before ++ (some key, value) :: after)) := by
  refine ⟨iff_of_false nofun nofun, ?_, ?_⟩
  · intro room
    cases room with
    | zero => rfl
    | succ room => simp [Json.readable, readable_of_scalar hvalue room]
  · refine readsAlike_of_giveAlike (giveAlike_insert hkey value) ?_ ?_ ?_
    · rintro nested rfl
      have hne : some "op" ≠ some key := by
        rintro ⟨⟩
        exact hkey List.mem_cons_self
      have hop : (some "op" == some key) = false := beq_false_of_ne hne
      simp only [operatorOf?, List.lookup_append, List.lookup_cons, hop]
    · rintro item rfl
      cases hrecord
    · rintro rfl
      cases hrecord

/-! ### A change inside a member -/

/-- A member that is alike under the form of its field gives fields that are alike. -/
theorem giveAlike_member {forms : List (String × Form)} {key : Spelling} {value value' : Json}
    (h : ∀ name ∈ key, (formOf forms name).Alike value value') :
    GiveAlike forms (.object (before ++ (key, value) :: after))
      (.object (before ++ (key, value') :: after)) := by
  apply Json.fields?_of_forall₂
  have hsame : ∀ members : List (Spelling × Json),
      List.Forall₂ (fun x x' => x.1 = x'.1 ∧ ∀ name ∈ x.1, (formOf forms name).Alike x.2 x'.2)
        members members :=
    fun members => List.forall₂_same.mpr fun _ _ => ⟨rfl, fun _ _ => .refl _ _⟩
  exact List.rel_append (hsame before) (.cons ⟨rfl, h⟩ (hsame after))

/-- The operator is read alike after a change in a member, if the member that holds it is read
alike. -/
theorem operatorOf?_member {nested : Bool} {key : Spelling} {value value' : Json}
    (h : key = some "op" → Form.other.ReadsAlike value value') :
    operatorOf? nested (.object (before ++ (key, value') :: after)) =
      operatorOf? nested (.object (before ++ (key, value) :: after)) := by
  simp only [operatorOf?, List.lookup_append, List.lookup_cons]
  by_cases hkey : key = some "op"
  · have hoperator : operator? nested value' = operator? nested value :=
      (h hkey).eq_of_isOpaque fun _ => operator?_of_isOpaque nested
    rw [hkey, beq_self_eq_true]
    cases before.lookup (some "op") with
    | none => exact hoperator
    | some tag => rfl
  · rw [beq_false_of_ne (Ne.symm hkey)]

/-- A member that is alone in its object is a word as long as its value is `null`. -/
theorem readsAlike_other_member {key : Spelling} {value value' : Json}
    (h : value = .null ↔ value' = .null) :
    Form.other.ReadsAlike (.object (before ++ (key, value) :: after))
      (.object (before ++ (key, value') :: after)) := by
  apply readsAlike_other
  intro word
  cases before with
  | nil => simp [h]
  | cons x before => simp

/-- A record is the same to its readers, if a member of it is. -/
theorem alike_member {key : Spelling} {value value' : Json}
    (h : (form.ofMember (.object (before ++ (key, value) :: after)) key).Alike value value') :
    form.Alike (.object (before ++ (key, value) :: after))
      (.object (before ++ (key, value') :: after)) := by
  refine ⟨iff_of_false nofun nofun, ?_, ?_⟩
  · intro room
    cases room with
    | zero => rfl
    | succ room => simp [Json.readable, h.readable]
  · refine readsAlike_of_giveAlike (giveAlike_member ?_) ?_ ?_ ?_
    · rintro name ⟨⟩
      exact h
    · rintro nested rfl
      apply operatorOf?_member
      rintro rfl
      exact h.reads
    · rintro item rfl
      exact .none
    · rintro rfl
      exact readsAlike_other_member h.null

/-! ### A change inside an item -/

/-- The operator is read alike after a change in an item, if the first item is read alike. -/
theorem operatorOf?_item {nested : Bool} {before after : List Json} {value value' : Json}
    (h : before = [] → Form.other.ReadsAlike value value') :
    operatorOf? nested (.array (before ++ value' :: after)) =
      operatorOf? nested (.array (before ++ value :: after)) := by
  cases before with
  | nil =>
    have hoperator : operator? nested value' = operator? nested value :=
      (h rfl).eq_of_isOpaque fun _ => operator?_of_isOpaque nested
    exact hoperator
  | cons tag before => rfl

/-- An array is the same to its readers, if an item of it is. -/
theorem alike_item {before after : List Json} {value value' : Json}
    (h : (form.ofItem (.array (before ++ value :: after)) before.length).Alike value value') :
    form.Alike (.array (before ++ value :: after)) (.array (before ++ value' :: after)) := by
  refine ⟨iff_of_false nofun nofun, ?_, ?_⟩
  · intro room
    cases room with
    | zero => rfl
    | succ room => simp [Json.readable, h.readable]
  · have hplace : ∀ forms : List (String × Form),
        (((forms.map Prod.fst)[before.length]?.map (formOf forms)).getD .other).Alike value value' →
        GiveAlike forms (.array (before ++ value :: after)) (.array (before ++ value' :: after)) := by
      intro forms hforms
      apply Json.fields?_item fun name => Form.Alike.refl (formOf forms name)
      intro name hname
      rw [hname] at hforms
      exact hforms
    cases form with
    | model | capabilities | symbol | property | menu =>
      exact readsAlike_of_giveAlike (hplace _ h) nofun nofun nofun
    | expr nested =>
      refine readsAlike_of_giveAlike (hplace _ h) ?_ nofun nofun
      rintro _ ⟨⟩
      apply operatorOf?_item
      rintro rfl
      exact h.reads
    | list item =>
      have hsame : ∀ items : List Json, List.Forall₂ item.ReadsAlike items items :=
        fun items => List.forall₂_same.mpr fun j _ => .refl item j
      exact .some (List.rel_append (hsame before) (.cons h.reads (hsame after)))
    | other => exact .inr ⟨trivial, trivial⟩

end Steps

/-- What a document is changed in is not seen by whoever reads what is around it. -/
theorem Change.alike {form : Form} {j j' : Json} (h : Change form j j') : form.Alike j j' := by
  induction h with
  | reorder hperm => exact alike_reorder hperm _
  | insert hrecord hkey hvalue => exact alike_insert hrecord hkey hvalue
  | member _ ih => exact alike_member ih
  | item _ ih => exact alike_item ih

/-! ## Models -/

/-- Documents that differ in changes are read as the same model, or neither as one. -/
theorem model?_eq_of_changes {j j' : Json} (h : Relation.ReflTransGen (Change .model) j j')
    (room : Nat) : model? room j' = model? room j := by
  induction h with
  | refl => rfl
  | tail _ hchange ih => exact (hchange.alike.reads room).trans ih

/-- Two documents of which one is the other with the members of its objects in other orders, and
with more members in its records that are none of their fields, are read as the same model, or both
are refused: from texts and from bytes, before the check of the model and with it. -/
theorem reading_unchanged {j j' : Json} (h : Relation.ReflTransGen (Change .model) j j') :
    (∀ text text' : String, Json.ofText? text = some j → Json.ofText? text' = some j' →
      modelOfText? text' = modelOfText? text ∧ Model.ofText text' = Model.ofText text) ∧
      ∀ bytes bytes' : List UInt8, Json.ofBytes? bytes = some j → Json.ofBytes? bytes' = some j' →
        modelOfBytes? bytes' = modelOfBytes? bytes ∧
          Model.ofBytes bytes' = Model.ofBytes bytes := by
  constructor
  · intro text text' htext htext'
    have hmodel : modelOfText? text' = modelOfText? text := by
      rw [modelOfText?, modelOfText?, htext, htext']
      exact model?_eq_of_changes h nestingLimit
    exact ⟨hmodel, by rw [Model.ofText, Model.ofText, hmodel]⟩
  · intro bytes bytes' hbytes hbytes'
    have hmodel : modelOfBytes? bytes' = modelOfBytes? bytes := by
      rw [modelOfBytes?, modelOfBytes?, hbytes, hbytes']
      exact model?_eq_of_changes h nestingLimit
    exact ⟨hmodel, by rw [Model.ofBytes, Model.ofBytes, hmodel]⟩

/-- The document of a model whose only symbol depends on the negation of a condition, with a member
that no model has. -/
def negated (condition : Json) : Json :=
  .object [
    (some "symbols", .array [.object [
      (some "name", .text "A"),
      (some "dir_dep", .object [(some "op", .text "not"), (some "expr", condition)])]]),
    (some "note", .null)]

/-- A change to the condition is one to the document. -/
theorem Change.negated {j j' : Json} (h : Change (.expr true) j j') :
    Change .model (negated j) (negated j') := by
  let dependency (j : Json) : List (Spelling × Json) :=
    [(some "op", .text "not")] ++ [(some "expr", j)]
  let symbol (j : Json) : List (Spelling × Json) :=
    [(some "name", .text "A")] ++ [(some "dir_dep", .object (dependency j))]
  have hdependency : Change (.expr false) (.object (dependency j)) (.object (dependency j')) :=
    .member h
  have hsymbol : Change .symbol (.object (symbol j)) (.object (symbol j')) := .member hdependency
  have hsymbols : Change (.list .symbol) (.array ([] ++ [.object (symbol j)]))
      (.array ([] ++ [.object (symbol j')])) := .item hsymbol
  have hmodel : Change .model (.object ([] ++ (some "symbols", .array [.object (symbol j)]) ::
      [(some "note", .null)])) (.object ([] ++ (some "symbols", .array [.object (symbol j')]) ::
      [(some "note", .null)])) := .member hsymbols
  exact hmodel

/-- A document whose condition is a symbol. -/
def negatedText : String :=
  "\x7b\"symbols\":[\x7b\"name\":\"A\",\"dir_dep\":\x7b\"op\":\"not\",\"expr\":" ++
    "\x7b\"op\":\"symbol\",\"sym\":\"y\"\x7d\x7d\x7d],\"note\":null\x7d"

/-- The same with a member more in the condition, and with its operator and the symbols last. -/
def rearrangedText : String :=
  "\x7b\"note\":null,\"symbols\":[\x7b\"name\":\"A\",\"dir_dep\":\x7b\"op\":\"not\"," ++
    "\"expr\":\x7b\"sym\":\"y\",\"right\":7,\"op\":\"symbol\"\x7d\x7d\x7d]\x7d"

/-- The rearranged text is read as the same model as the text of a negated condition. -/
theorem rearrangedText_reading_unchanged :
    (modelOfText? negatedText).isSome ∧ modelOfText? rearrangedText = modelOfText? negatedText := by
  let op : Spelling × Json := (some "op", .text "symbol")
  let sym : Spelling × Json := (some "sym", .text "y")
  have hreorder : Change (.expr true) (.object [op, sym]) (.object [sym, op]) :=
    .reorder (.swap sym op [])
  have hinsert : Change (.expr true) (.object ([sym] ++ [op]))
      (.object ([sym] ++ (some "right", .nat 7) :: [op])) := .insert rfl (by decide) (by decide)
  have hmembers : Change .model (negated (.object [sym, (some "right", .nat 7), op]))
      (.object [(some "note", .null), (some "symbols", .array [.object [
        (some "name", .text "A"), (some "dir_dep", .object [(some "op", .text "not"),
          (some "expr", .object [sym, (some "right", .nat 7), op])])]])]) :=
    .reorder (.swap _ _ [])
  have hchanges := Relation.ReflTransGen.tail
    (.tail (.single hreorder.negated) hinsert.negated) hmembers
  refine ⟨by decide +kernel, ?_⟩
  exact ((reading_unchanged hchanges).1 negatedText rearrangedText rfl rfl).1

end Kconfig.Interchange
