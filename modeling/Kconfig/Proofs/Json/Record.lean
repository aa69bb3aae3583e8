import Kconfig.Json.Record

/-!
# Fields of records

An object that gives some of a record's fields, each once and in their order, is read as those
fields (`Json.fields?_ofMembers`). What a field is read as is known where it is known what it was
written from; and what was read as a field comes from some document that the field's reader took.
-/

namespace Kconfig.Json

/-- Names that are texts are spelled as they are. -/
theorem spelled?_ofMembers (members : List (String × Json)) :
    spelled? (members.map fun (key, value) => (some key, value)) = some members := by
  induction members with
  | nil => rfl
  | cons member members ih => simp [spelled?, ih]

/-- The fields that an object gives. -/
theorem fields?_ofMembers {names : List String} (hnames : names.Nodup)
    {members : List (String × Json)} (h : (members.map Prod.fst).Sublist names) :
    (ofMembers members).fields? names = some members := by
  have hown : (members.filter fun (key, _) => names.contains key) = members := by
    rw [List.filter_eq_self]
    intro member hmember
    exact List.contains_iff_mem.mpr (h.subset (List.mem_map_of_mem hmember))
  have hnodup : (members.map Prod.fst).Nodup := h.nodup hnames
  unfold ofMembers
  simp only [fields?, spelled?_ofMembers, hown, if_pos hnodup]

namespace Fields

variable {α : Type} {fields : Fields} {name : String} {read : Json → Option α}

/-! ## What fields are read as -/

/-- A required field that is there is read. -/
theorem required_of_lookup {j : Json} (h : fields.lookup name = some j) :
    fields.required name read = read j := by
  unfold required
  simp only [h]

/-- A field that is written where it is there. -/
theorem optional_of_lookup (write : α → Json) {value : Option α}
    (h : fields.lookup name = value.map write)
    (hread : ∀ a ∈ value, write a ≠ .null ∧ read (write a) = some a) :
    fields.optional name read = some value := by
  rcases value with _ | a
  · unfold optional
    simp only [h, Option.map_none]
  · obtain ⟨hnull, ha⟩ := hread a rfl
    unfold optional
    simp only [h, Option.map_some, ha]

/-- A field with a default that is there is read. -/
theorem getD_of_lookup {absent : α} {j : Json} (h : fields.lookup name = some j) :
    fields.getD name read absent = read j := by
  unfold getD
  simp only [h]

/-- A field that is not there has its default. -/
theorem getD_of_lookup_eq_none {absent : α} (h : fields.lookup name = none) :
    fields.getD name read absent = some absent := by
  unfold getD
  simp only [h]

/-! ## Where fields come from -/

/-- What a required field yields was read from some document. -/
theorem exists_of_required {a : α} (h : fields.required name read = some a) :
    ∃ j, read j = some a := by
  unfold required at h
  split at h
  · exact ⟨_, h⟩
  · cases h

/-- What an optional field yields, if anything, was read from some document. -/
theorem exists_of_optional {value : Option α} (h : fields.optional name read = some value) :
    ∀ a ∈ value, ∃ j, read j = some a := by
  unfold optional at h
  split at h
  · cases h
    exact nofun
  · cases h
    exact nofun
  · obtain ⟨a, ha, rfl⟩ := Option.map_eq_some_iff.mp h
    rintro a' ⟨⟩
    exact ⟨_, ha⟩

/-- What a field with a default yields is the default, or was read from some document. -/
theorem exists_of_getD {absent a : α} (h : fields.getD name read absent = some a) :
    a = absent ∨ ∃ j, read j = some a := by
  unfold getD at h
  split at h
  · exact .inr ⟨_, h⟩
  · exact .inl (Option.some.inj h).symm

end Fields

end Kconfig.Json
