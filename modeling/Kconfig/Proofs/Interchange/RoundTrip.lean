import Kconfig.Proofs.Interchange.Entry
import Kconfig.Proofs.Json.RoundTrip

/-!
# Models are read as they were written

The document of a model is read as the model, in any room that the document fits in, and a document
that was read as a model leaves that much room for the model's own document. A menu tree is no
different from an expression in this: reading a menu uses up a level for the list of its children
and one for each child (`Interchange.menu?_ofMenu`, `Interchange.depth_le_of_menu?`).
-/

namespace Kconfig.Interchange

open Kconfig.Json (Fields IsPlain)

/-! ## Menus -/

/-- The documents of menus are those of each menu. -/
theorem ofMenus_eq_map (menus : List Menu) : ofMenus menus = menus.map ofMenu := by
  induction menus with
  | nil => rfl
  | cons menu menus ih => rw [ofMenus, ih, List.map_cons]

/-- The members of a menu's document. -/
def menuMembers (menu : Menu) : List (String × Json) :=
  [("flags", ofMenuFlags menu.flags)] ++ field "symbol" ofSymbolId menu.symbol ++
    field "dep" ofExpr menu.dep ++ listField "choice_members" ofSymbolId menu.choiceMembers ++
    listField "children" ofMenu menu.children

/-- The document of a menu is made of its members. -/
theorem ofMenu_eq (menu : Menu) : ofMenu menu = .ofMembers (menuMembers menu) := by
  obtain ⟨flags, symbol, dep, choiceMembers, children⟩ := menu
  rw [ofMenu, ofMenus_eq_map]
  rfl

/-- The document of a menu gives its members back as fields. -/
theorem fields?_ofMenu (menu : Menu) :
    (ofMenu menu).fields? menuFields = some (menuMembers menu) := by
  rw [ofMenu_eq]
  refine Json.fields?_ofMembers (by decide) ?_
  unfold menuMembers
  simp only [List.map_append]
  exact ((((List.Sublist.refl ["flags"]).append (keys_field ..)).append (keys_field ..)).append
    (keys_listField ..)).append (keys_listField ..)

mutual

/-- The document of a menu is plain. -/
theorem isPlain_ofMenu : ∀ menu : Menu, IsPlain (ofMenu menu)
  | ⟨flags, symbol, dep, choiceMembers, children⟩ => by
    have hchildren := isPlain_ofMenus children
    rw [ofMenus_eq_map] at hchildren
    rw [ofMenu_eq]
    refine .ofMembers ?_
    unfold menuMembers
    simp only [List.forall_mem_append, List.forall_mem_singleton, forall_mem_field,
      forall_mem_listField]
    refine ⟨⟨⟨⟨.text _, ?_⟩, ?_⟩, ?_⟩, ?_⟩
    · intro id _
      exact isPlain_ofSymbolId id
    · intro e _
      exact isPlain_ofExpr e
    · intro _
      apply IsPlain.array
      rw [List.forall_mem_map]
      intro id _
      exact isPlain_ofSymbolId id
    · intro _
      exact .array hchildren

/-- The documents of menus are plain. -/
theorem isPlain_ofMenus : ∀ menus : List Menu, ∀ j ∈ ofMenus menus, IsPlain j
  | [] => nofun
  | menu :: menus => List.forall_mem_cons.mpr ⟨isPlain_ofMenu menu, isPlain_ofMenus menus⟩

end

/-- The document of a menu is one level deeper than its dependency and two levels deeper than its
children, at least. -/
theorem depth_ofMenu_le_iff {menu : Menu} {room : Nat} :
    (ofMenu menu).depth ≤ room + 1 ↔
      (∀ e ∈ menu.dep, (ofExpr e).depth ≤ room) ∧ (menu.choiceMembers ≠ [] → 0 < room) ∧
        (menu.children ≠ [] → ∃ room', room = room' + 1 ∧
          ∀ child ∈ menu.children, (ofMenu child).depth ≤ room') := by
  have hids : (menu.choiceMembers ≠ [] → ∃ room', room = room' + 1 ∧
      ∀ id ∈ menu.choiceMembers, (ofSymbolId id).depth ≤ room') ↔
      (menu.choiceMembers ≠ [] → 0 < room) := by
    apply imp_congr_right
    intro _
    constructor
    · rintro ⟨room', rfl, -⟩
      exact Nat.succ_pos room'
    · intro h
      exact ⟨room - 1, (Nat.succ_pred_eq_of_pos h).symm, fun _ _ => Nat.zero_le _⟩
  rw [ofMenu_eq, Json.depth_ofMembers_le_iff, ← hids]
  unfold menuMembers
  simp only [List.forall_mem_append, List.forall_mem_singleton, depth_field_le_iff,
    depth_listField_le_iff]
  constructor
  · rintro ⟨⟨⟨-, hdep⟩, hmembers⟩, hchildren⟩
    exact ⟨hdep, hmembers, hchildren⟩
  · rintro ⟨hdep, hmembers, hchildren⟩
    refine ⟨⟨⟨⟨Nat.zero_le _, ?_⟩, hdep⟩, hmembers⟩, hchildren⟩
    intro id _
    exact Nat.zero_le _

/-- The document of a menu of which nothing is said. -/
theorem depth_ofMenu_default (room : Nat) : (ofMenu {}).depth ≤ room + 1 := by
  rw [depth_ofMenu_le_iff]
  exact ⟨nofun, absurd rfl, absurd rfl⟩

/-- A menu is what its document is read as, and so are its descendants. -/
theorem menu?_ofMenu {menu : Menu} {room : Nat} (h : (ofMenu menu).depth ≤ room) :
    menu? room (ofMenu menu) = some menu := by
  induction room using Nat.strongRecOn generalizing menu with
  | ind room ih =>
    cases room with
    | zero =>
      rw [ofMenu_eq] at h
      exact absurd h (Nat.not_succ_le_zero _)
    | succ room =>
      rw [depth_ofMenu_le_iff] at h
      obtain ⟨hdep, hmembers, hchildren⟩ := h
      have hflags : (menuMembers menu).lookup "flags" = some (ofMenuFlags menu.flags) := by
        simp [menuMembers]
      have hsymbol : (menuMembers menu).lookup "symbol" = menu.symbol.map ofSymbolId := by
        simp [menuMembers, List.lookup_append, List.lookup_cons, lookup_field, lookup_listField]
      have hexpr : (menuMembers menu).lookup "dep" = menu.dep.map ofExpr := by
        simp [menuMembers, List.lookup_append, List.lookup_cons, lookup_field, lookup_listField]
      have hlist : (menuMembers menu).lookup "choice_members" =
          if menu.choiceMembers ≠ [] then some (.array (menu.choiceMembers.map ofSymbolId))
          else none := by
        simp [menuMembers, List.lookup_append, List.lookup_cons, lookup_field, lookup_listField]
      have htree : (menuMembers menu).lookup "children" =
          if menu.children ≠ [] then some (.array (menu.children.map ofMenu)) else none := by
        simp [menuMembers, List.lookup_append, List.lookup_cons, lookup_field, lookup_listField]
      have hid : Fields.optional (menuMembers menu) "symbol" symbolId? = some menu.symbol :=
        Fields.optional_of_lookup ofSymbolId hsymbol fun id _ => ⟨nofun, symbolId?_ofSymbolId id⟩
      have hids : Fields.getD (menuMembers menu) "choice_members" (list? (fun _ => symbolId?) room)
          [] = some menu.choiceMembers := by
        apply getD_list hlist
        intro hne
        exact ⟨room - 1, (Nat.succ_pred_eq_of_pos (hmembers hne)).symm,
          fun id _ => symbolId?_ofSymbolId id⟩
      rw [menu?, fields?_ofMenu]
      simp only [Option.bind_eq_bind, Option.bind_some, Fields.getD_of_lookup hflags,
        menuFlags?_ofMenuFlags, hid, optional_expr hexpr hdep, hids, htree]
      by_cases hne : menu.children = []
      · obtain ⟨flags, symbol, dep, choiceMembers, children⟩ := menu
        simp only at hne
        simp [hne]
      · obtain ⟨room', rfl, hdepth⟩ := hchildren hne
        have hmap : (menu.children.map ofMenu).mapM (menu? room') = some menu.children := by
          apply mapM_map
          intro child hchild
          exact ih room' (by omega) (hdepth child hchild)
        obtain ⟨flags, symbol, dep, choiceMembers, children⟩ := menu
        simp only [ne_eq, hne, not_false_eq_true, if_true, hmap]
        rfl

/-- Reading uses up room for every level of the menu tree that it finds. -/
theorem depth_le_of_menu? {menu : Menu} {room : Nat} {j : Json} (h : menu? room j = some menu) :
    (ofMenu menu).depth ≤ room := by
  induction room using Nat.strongRecOn generalizing menu j with
  | ind room ih =>
    cases room with
    | zero => simp [menu?] at h
    | succ room =>
      simp only [menu?, Option.bind_eq_bind, Option.bind_eq_some_iff] at h
      obtain ⟨fields, -, flags, -, symbol, -, dep, hdep, members, hmembers, h⟩ := h
      have hroom : members ≠ [] → 0 < room := by
        intro hne
        rcases Fields.exists_of_getD hmembers with hnil | ⟨j', hlist⟩
        · exact absurd hnil hne
        · obtain ⟨room', rfl, -⟩ := exists_of_list? hlist
          exact Nat.succ_pos room'
      rw [depth_ofMenu_le_iff]
      split at h
      · cases h
        exact ⟨depth_le_of_optional_expr hdep, hroom, absurd rfl⟩
      · cases room with
        | zero => cases h
        | succ room =>
          obtain ⟨children, hchildren, ⟨⟩⟩ := Option.bind_eq_some_iff.mp h
          refine ⟨depth_le_of_optional_expr hdep, hroom, ?_⟩
          intro _
          refine ⟨room, rfl, ?_⟩
          intro child hchild
          obtain ⟨j', hj'⟩ := exists_of_mapM hchildren child hchild
          exact ih room (by omega) hj'
      · cases h

/-! ## Capabilities -/

/-- The document of the capabilities is plain. -/
theorem isPlain_ofCapabilities (c : Capabilities) : IsPlain (ofCapabilities c) := by
  refine .ofMembers ?_
  simp only [List.forall_mem_cons]
  exact ⟨.text _, .bool _, nofun⟩

/-- The document of the capabilities is one level deep. -/
theorem depth_ofCapabilities_le_iff {c : Capabilities} {room : Nat} :
    (ofCapabilities c).depth ≤ room ↔ 0 < room := by
  cases room with
  | zero => exact iff_of_false (Nat.not_succ_le_zero _) (Nat.lt_irrefl 0)
  | succ room =>
    refine iff_of_true ?_ (Nat.succ_pos room)
    unfold ofCapabilities
    rw [Json.depth_ofMembers_le_iff]
    simp [Json.text, Json.depth]

/-- Capabilities are what their document is read as. -/
theorem capabilities?_ofCapabilities (c : Capabilities) (room : Nat) :
    capabilities? (room + 1) (ofCapabilities c) = some c := by
  have hfields : (ofCapabilities c).fields? capabilityFields =
      some [("choice_members", .text c.choiceMembers.label),
        ("optional_choices", .bool c.optionalChoices)] :=
    Json.fields?_ofMembers (by decide) (List.Sublist.refl _)
  simp [capabilities?, record?, hfields, Fields.getD, List.lookup_cons, word?_choiceShape, bool?]

/-! ## Models -/

/-- The document of a model is plain. -/
theorem isPlain_ofModel (m : Model) : IsPlain (ofModel m) := by
  refine .ofMembers ?_
  simp only [List.forall_mem_cons]
  refine ⟨isPlain_ofCapabilities _, .array ?_, isPlain_ofMenu _, nofun⟩
  rw [List.forall_mem_map]
  intro s _
  exact isPlain_ofSymbol s

/-- The document of a model is two levels deeper than its symbols and one level deeper than its
root, at least. -/
theorem depth_ofModel_le_iff {m : Model} {room : Nat} :
    (ofModel m).depth ≤ room + 2 ↔
      (∀ s ∈ m.symbols, (ofSymbol s).depth ≤ room) ∧ (ofMenu m.root).depth ≤ room + 1 := by
  unfold ofModel
  rw [Json.depth_ofMembers_le_iff]
  simp only [List.forall_mem_cons, depth_ofCapabilities_le_iff, Json.depth_array_le_iff,
    List.forall_mem_map, Array.mem_toList_iff]
  constructor
  · rintro ⟨-, hsymbols, hroot, -⟩
    exact ⟨hsymbols, hroot⟩
  · rintro ⟨hsymbols, hroot⟩
    exact ⟨Nat.succ_pos room, hsymbols, hroot, nofun⟩

/-- A model is what its document is read as. -/
theorem model?_ofModel {m : Model} {room : Nat} (h : (ofModel m).depth ≤ room + 2) :
    model? (room + 2) (ofModel m) = some m := by
  rw [depth_ofModel_le_iff] at h
  have hfields : (ofModel m).fields? modelFields =
      some [("capabilities", ofCapabilities m.capabilities),
        ("symbols", .array (m.symbols.toList.map ofSymbol)), ("root", ofMenu m.root)] :=
    Json.fields?_ofMembers (by decide) (List.Sublist.refl _)
  have hsymbols : (m.symbols.toList.map ofSymbol).mapM (symbol? room) =
      some m.symbols.toList := by
    apply mapM_map
    intro s hs
    exact symbol?_ofSymbol (h.1 s (Array.mem_toList_iff.mp hs))
  have htable : Model.ofSymbols? m.symbols = some ⟨{}, m.symbols, {}, m.symbols_le⟩ :=
    dif_pos m.symbols_le
  simp [model?, record?, hfields, Fields.getD, List.lookup_cons, capabilities?_ofCapabilities,
    list?, hsymbols, menu?_ofMenu h.2, htable, Model.withCapabilities, Model.withRoot]

/-- Reading uses up room for every level of the model that it finds. -/
theorem depth_le_of_model? {m : Model} {room : Nat} {j : Json}
    (h : model? (room + 2) j = some m) : (ofModel m).depth ≤ room + 2 := by
  simp only [model?, record?, Option.bind_eq_bind, Option.bind_eq_some_iff,
    Option.map_eq_some_iff] at h
  obtain ⟨_, ⟨fields, -, rfl⟩, capabilities, -, symbols, hsymbols, root, hroot, model, hmodel,
    ⟨⟩⟩ := h
  have hm : model.symbols = symbols.toArray := by
    unfold Model.ofSymbols? at hmodel
    split at hmodel
    · cases hmodel
      rfl
    · cases hmodel
  rw [depth_ofModel_le_iff]
  constructor
  · intro s hs
    simp only [Model.withRoot, Model.withCapabilities, hm, List.mem_toArray] at hs
    rcases Fields.exists_of_getD hsymbols with rfl | ⟨j', hlist⟩
    · cases hs
    · obtain ⟨room', hroom, hread⟩ := exists_of_list? hlist
      obtain ⟨j'', hj''⟩ := hread s hs
      obtain rfl := Nat.succ.inj hroom
      exact depth_le_of_symbol? hj''
  · rcases Fields.exists_of_getD hroot with rfl | ⟨j', hmenu⟩
    · exact depth_ofMenu_default room
    · exact depth_le_of_menu? hmenu

/-! ## Texts -/

/-- A model whose document is within the nesting limit is what the text of its document is read as.
A model that was read, from a text or from bytes, is such a model, whatever the spelling it was
read from. -/
theorem model_reads_back :
    (∀ m : Model, (ofModel m).depth ≤ nestingLimit → modelOfText? (ofModel m).write = some m) ∧
      (∀ (text : String) (m : Model), modelOfText? text = some m →
        (ofModel m).depth ≤ nestingLimit ∧ modelOfText? (ofModel m).write = some m) ∧
      ∀ (bytes : List UInt8) (m : Model), modelOfBytes? bytes = some m →
        (ofModel m).depth ≤ nestingLimit ∧ modelOfText? (ofModel m).write = some m := by
  have hwrite : ∀ m : Model, (ofModel m).depth ≤ nestingLimit →
      modelOfText? (ofModel m).write = some m := by
    intro m h
    unfold modelOfText?
    rw [Json.ofText?_write (isPlain_ofModel m), Option.bind_some]
    exact model?_ofModel h
  have hread : ∀ (j : Json) (m : Model), model? nestingLimit j = some m →
      (ofModel m).depth ≤ nestingLimit ∧ modelOfText? (ofModel m).write = some m := by
    intro j m h
    have hdepth : (ofModel m).depth ≤ nestingLimit := depth_le_of_model? h
    exact ⟨hdepth, hwrite m hdepth⟩
  refine ⟨hwrite, ?_, ?_⟩
  · intro text m h
    obtain ⟨j, -, hj⟩ := Option.bind_eq_some_iff.mp h
    exact hread j m hj
  · intro bytes m h
    obtain ⟨j, -, hj⟩ := Option.bind_eq_some_iff.mp h
    exact hread j m hj

/-- A document that nothing here writes so: a blank, an array for a menu, an unknown flag in front
of a known one, a letter by its code, and a field that no symbol has. -/
def respelled : String :=
  "\x7b\"root\": [\"0x40|ROOT\",0],\"symbols\":[\x7b\"name\":\"\\u00e9\",\"x\":1\x7d]\x7d"

/-- The model that it is read as is read from the model's own document too. -/
theorem respelled_reads_back :
    ∃ m : Model, modelOfText? respelled = some m ∧
      (m.root.flags, m.root.symbol, m.symbols.toList.map Symbol.name) =
        (⟨0x42⟩, some (SymbolId.ofPosition 0), [some "é"]) ∧
      (ofModel m).depth ≤ nestingLimit ∧ modelOfText? (ofModel m).write = some m := by
  have hread : (modelOfText? respelled).map
      (fun m => (m.root.flags, m.root.symbol, m.symbols.toList.map Symbol.name)) =
        some (⟨0x42⟩, some (SymbolId.ofPosition 0), [some "é"]) := by
    decide +kernel
  obtain ⟨m, hm, hparts⟩ := Option.map_eq_some_iff.mp hread
  have hdepth : (ofModel m).depth ≤ nestingLimit := (model_reads_back.2.1 respelled m hm).1
  exact ⟨m, hm, hparts, hdepth, model_reads_back.1 m hdepth⟩

end Kconfig.Interchange
