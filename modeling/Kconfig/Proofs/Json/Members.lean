import Kconfig.Json.Record
import Mathlib.Data.List.Forall2

/-!
# Records that are given alike

The fields of a record are found by their names, so what counts of a document is which value it
gives under each name (`Fields.Related`). The order of members counts for nothing
(`Json.fields?_perm`), nor do members of other names (`Json.fields?_insert`), and a value that is
replaced by a related one stays the value of its field, in objects (`Json.fields?_of_forall₂`) and
in arrays (`Json.fields?_item`). Documents that give no record at all, for a key that is given twice
or spells no text, give none either way.
-/

namespace Kconfig.Json

variable {R : String → Json → Json → Prop}

/-! ## Values under names -/

namespace Fields

/-- Whether the values under each name are related, if there are any. -/
def Related (R : String → Json → Json → Prop) (fields fields' : Fields) : Prop :=
  ∀ name, Option.Rel (R name) (fields.lookup name) (fields'.lookup name)

/-- Whether two lists of fields have the same names, and related values in each place. -/
def Abreast (R : String → Json → Json → Prop) (fields fields' : Fields) : Prop :=
  List.Forall₂ (fun x x' => x.1 = x'.1 ∧ R x.1 x.2 x'.2) fields fields'

/-- Fields are abreast of themselves, if every value is related to itself. -/
theorem Abreast.refl (h : ∀ name j, R name j j) (fields : Fields) : Abreast R fields fields :=
  List.forall₂_same.mpr fun x _ => ⟨rfl, h x.1 x.2⟩

/-- The values under the same name are related, if the fields are abreast. -/
theorem Abreast.related {fields fields' : Fields} (h : Abreast R fields fields') :
    Related R fields fields' := by
  intro name
  induction h with
  | nil => exact .none
  | @cons x x' _ _ hx _ ih =>
    obtain ⟨key, value⟩ := x
    obtain ⟨_, value'⟩ := x'
    obtain ⟨rfl, hvalue⟩ := hx
    rw [List.lookup_cons, List.lookup_cons]
    by_cases hname : name = key
    · subst hname
      rw [beq_self_eq_true]
      exact .some hvalue
    · rw [beq_false_of_ne hname]
      exact ih

/-- Fields that are abreast have the same names in the same order. -/
theorem Abreast.map_fst_eq {fields fields' : Fields} (h : Abreast R fields fields') :
    fields'.map Prod.fst = fields.map Prod.fst := by
  induction h with
  | nil => rfl
  | cons hx _ ih => rw [List.map_cons, List.map_cons, hx.1, ih]

/-- Fields that are abreast stay so where only some names are kept. -/
theorem Abreast.filter {fields fields' : Fields} (h : Abreast R fields fields')
    (names : List String) :
    Abreast R (fields.filter fun x => names.contains x.1)
      (fields'.filter fun x => names.contains x.1) := by
  apply List.rel_filter _ h
  intro x x' hx
  show names.contains x.1 = true ↔ names.contains x'.1 = true
  rw [hx.1]

/-- An item in place of another is in the place of the same field. -/
theorem Abreast.zip (hrefl : ∀ name j, R name j j) {j j' : Json} (after : List Json)
    {names : List String} {before : List Json} (h : ∀ name ∈ names[before.length]?, R name j j') :
    Abreast R (names.zip (before ++ j :: after)) (names.zip (before ++ j' :: after)) := by
  induction before generalizing names with
  | nil =>
    cases names with
    | nil => exact .nil
    | cons name names => exact .cons ⟨rfl, h name rfl⟩ (Abreast.refl hrefl _)
  | cons item before ih =>
    cases names with
    | nil => exact .nil
    | cons name names => exact .cons ⟨rfl, hrefl name item⟩ (ih h)

/-- What a name leads to does not depend on the order, if no name is given twice. -/
theorem related_of_perm (hrefl : ∀ name j, R name j j) {fields fields' : Fields}
    (h : fields.Perm fields') (hnodup : (fields.map Prod.fst).Nodup) :
    Related R fields fields' := by
  intro name
  have hlookup : fields.lookup name = fields'.lookup name := by
    induction h with
    | nil => rfl
    | cons x _ ih =>
      rw [List.lookup_cons, List.lookup_cons, ih (List.nodup_cons.mp hnodup).2]
    | swap x y l =>
      have hne : x.1 ≠ y.1 := by
        intro heq
        simp [heq] at hnodup
      rw [List.lookup_cons, List.lookup_cons, List.lookup_cons, List.lookup_cons]
      by_cases hx : name = x.1
      · have hy : (name == y.1) = false := beq_false_of_ne (hx ▸ hne)
        rw [hy]
      · rw [beq_false_of_ne hx]
    | trans h₁ _ ih₁ ih₂ =>
      exact (ih₁ hnodup).trans (ih₂ ((h₁.map Prod.fst).nodup_iff.mp hnodup))
  rw [hlookup]
  cases fields'.lookup name with
  | none => exact .none
  | some value => exact .some (hrefl name value)

/-- Fields of other names are in nobody's way. -/
theorem lookup_filter {names : List String} {name : String} (h : name ∈ names) (fields : Fields) :
    (fields.filter fun x => names.contains x.1).lookup name = fields.lookup name := by
  induction fields with
  | nil => rfl
  | cons x fields ih =>
    rw [List.filter_cons, List.lookup_cons]
    split
    · rw [List.lookup_cons, ih]
    · next hx =>
      have hne : name ≠ x.1 := by
        rintro rfl
        exact hx (List.contains_iff_mem.mpr h)
      rw [beq_false_of_ne hne, ih]

/-! ## Fields that are read alike -/

section Reading

variable {α : Type} {fields fields' : Fields} {name : String} {read : Json → Option α}

/-- A required field is read alike, if related values are. -/
theorem Related.required_eq (h : Related R fields fields')
    (hread : ∀ j j', R name j j' → read j' = read j) :
    fields'.required name read = fields.required name read := by
  unfold required
  generalize fields.lookup name = value, fields'.lookup name = value', h name = hvalue
  cases hvalue with
  | none => rfl
  | some hvalue => exact hread _ _ hvalue

/-- A field with a default is read alike, if related values are. -/
theorem Related.getD_eq (h : Related R fields fields')
    (hread : ∀ j j', R name j j' → read j' = read j) (absent : α) :
    fields'.getD name read absent = fields.getD name read absent := by
  unfold getD
  generalize fields.lookup name = value, fields'.lookup name = value', h name = hvalue
  cases hvalue with
  | none => rfl
  | some hvalue => exact hread _ _ hvalue

/-- A field that may be absent must be absent alike, too. -/
theorem Related.optional_eq (h : Related R fields fields')
    (hread : ∀ j j', R name j j' → (j = .null ↔ j' = .null) ∧ read j' = read j) :
    fields'.optional name read = fields.optional name read := by
  unfold optional
  generalize fields.lookup name = value, fields'.lookup name = value', h name = hvalue
  cases hvalue with
  | none => rfl
  | @some j j' hvalue =>
    obtain ⟨hnull, hj⟩ := hread j j' hvalue
    by_cases hj0 : j = .null
    · rw [hj0, hnull.mp hj0]
    · have hj0' : j' ≠ .null := mt hnull.mpr hj0
      simp only [hj]

end Reading

end Fields

/-! ## Members -/

/-- Members spell fields if each key spells a text. -/
theorem spelled?_eq_ite (members : List (Spelling × Json)) :
    spelled? members =
      if members.all (fun x => x.1.isSome) then
        some (members.filterMap fun x => x.1.map fun key => (key, x.2))
      else none := by
  induction members with
  | nil => rfl
  | cons x members ih =>
    obtain ⟨_ | key, value⟩ := x
    · rfl
    · rw [spelled?, ih]
      by_cases h : members.all fun x => x.1.isSome <;> simp [h]

/-- A name is looked up alike before and after the keys are spelled. -/
theorem lookup_of_spelled? {members : List (Spelling × Json)} {fields : Fields}
    (h : spelled? members = some fields) (name : String) :
    fields.lookup name = members.lookup (some name) := by
  induction members generalizing fields with
  | nil =>
    obtain rfl := Option.some.inj h
    rfl
  | cons x members ih =>
    obtain ⟨_ | key, value⟩ := x
    · cases h
    · obtain ⟨fields, hfields, rfl⟩ := Option.map_eq_some_iff.mp h
      rw [List.lookup_cons, List.lookup_cons, ih hfields]
      rfl

/-- A field is the first member of its name. -/
theorem lookup_of_fields? {names : List String} {members : List (Spelling × Json)}
    {fields : Fields} (h : (object members).fields? names = some fields) {name : String}
    (hname : name ∈ names) : fields.lookup name = members.lookup (some name) := by
  unfold fields? at h
  simp only at h
  rcases hspelled : spelled? members with _ | all
  · rw [hspelled] at h
    cases h
  · rw [hspelled] at h
    obtain ⟨-, h⟩ := Option.ite_none_right_eq_some.mp h
    obtain rfl := Option.some.inj h
    rw [Fields.lookup_filter hname, lookup_of_spelled? hspelled]

/-- Members in another order spell the same fields in another order. -/
theorem spelled?_perm {members members' : List (Spelling × Json)} (h : members.Perm members') :
    Option.Rel List.Perm (spelled? members) (spelled? members') := by
  rw [spelled?_eq_ite, spelled?_eq_ite, ← h.all_eq]
  split
  · exact .some (h.filterMap _)
  · exact .none

/-- The order of members makes no difference to a record. -/
theorem fields?_perm (hrefl : ∀ name j, R name j j) {members members' : List (Spelling × Json)}
    (h : members.Perm members') (names : List String) :
    Option.Rel (Fields.Related R) ((object members).fields? names)
      ((object members').fields? names) := by
  unfold fields?
  simp only
  generalize spelled? members = fields, spelled? members' = fields', spelled?_perm h = hfields
  cases hfields with
  | none => exact .none
  | @some fields fields' hperm =>
    have hown := hperm.filter fun x => names.contains x.1
    have hnodup := (hown.map Prod.fst).nodup_iff
    simp only
    split
    · next hn =>
      rw [if_pos (hnodup.mp hn)]
      exact .some (Fields.related_of_perm hrefl hown hn)
    · next hn =>
      rw [if_neg (mt hnodup.mpr hn)]
      exact .none

/-- A member of another name makes no difference to a record. -/
theorem fields?_insert {names : List String} {key : String} (hkey : key ∉ names)
    (before after : List (Spelling × Json)) (value : Json) :
    (object (before ++ (some key, value) :: after)).fields? names =
      (object (before ++ after)).fields? names := by
  have hall : (before ++ (some key, value) :: after).all (fun x => x.1.isSome) =
      (before ++ after).all fun x => x.1.isSome := by
    simp
  have hown : ∀ fields fields' : Fields,
      (fields ++ (key, value) :: fields').filter (fun x => names.contains x.1) =
        (fields ++ fields').filter fun x => names.contains x.1 := by
    intro fields fields'
    simp [hkey]
  unfold fields?
  simp only [spelled?_eq_ite, hall]
  by_cases h : (before ++ after).all fun x => x.1.isSome
  · simp only [if_pos h, List.filterMap_append, List.filterMap_cons, Option.map_some, hown]
  · simp only [if_neg h]

/-- Members with the same keys and related values are spelled as fields that are abreast, or none of
the two can be. -/
theorem spelled?_of_forall₂ {members members' : List (Spelling × Json)}
    (h : List.Forall₂ (fun x x' => x.1 = x'.1 ∧ ∀ key ∈ x.1, R key x.2 x'.2) members members') :
    Option.Rel (Fields.Abreast R) (spelled? members) (spelled? members') := by
  induction h with
  | nil => exact .some .nil
  | @cons x x' members members' hx _ ih =>
    obtain ⟨key, value⟩ := x
    obtain ⟨_, value'⟩ := x'
    obtain ⟨rfl, hvalue⟩ := hx
    cases key with
    | none => exact .none
    | some key =>
      unfold spelled?
      generalize spelled? members = fields, spelled? members' = fields' at ih
      cases ih with
      | none => exact .none
      | some habreast => exact .some (.cons ⟨rfl, hvalue key rfl⟩ habreast)

/-- Values that are related give related fields. -/
theorem fields?_of_forall₂ {members members' : List (Spelling × Json)}
    (h : List.Forall₂ (fun x x' => x.1 = x'.1 ∧ ∀ key ∈ x.1, R key x.2 x'.2) members members')
    (names : List String) :
    Option.Rel (Fields.Related R) ((object members).fields? names)
      ((object members').fields? names) := by
  unfold fields?
  simp only
  generalize spelled? members = fields, spelled? members' = fields',
    spelled?_of_forall₂ h = hspelled
  cases hspelled with
  | none => exact .none
  | @some fields fields' habreast =>
    have hown := habreast.filter names
    simp only [hown.map_fst_eq]
    split
    · exact .some hown.related
    · exact .none

/-- An item that is replaced by a related one stays the value of the field in its place. -/
theorem fields?_item (hrefl : ∀ name j, R name j j) {names : List String} {j j' : Json}
    (before after : List Json) (h : ∀ name ∈ names[before.length]?, R name j j') :
    Option.Rel (Fields.Related R) ((array (before ++ j :: after)).fields? names)
      ((array (before ++ j' :: after)).fields? names) := by
  unfold fields?
  simp only [List.length_append, List.length_cons]
  split
  · exact .some (Fields.Abreast.zip hrefl after h).related
  · exact .none

end Kconfig.Json
