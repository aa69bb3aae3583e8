import Kconfig.Proofs.Dump.Nesting

/-!
# Names and texts survive the dump

Where no name starts a tag and no text ends its section, a reader of the dump finds every symbol
that a menu shows, in the order of the menus, with its name and with the texts of its properties as
they are in the model, and no tags but those of the pieces that were written
(`Dump.dump_shows_symbols`). The proof follows the recursion that the events of the walk are.

Nothing else keeps a text in its section: it is written as it is, and one that holds the end of a
section is read as something else (`Dump.endOfSection_misread`).
-/

namespace Kconfig

open Markup

namespace Dump

variable {m : Model}

/-- The symbols of menus in a row are those of the first, then those of the others. -/
theorem ShownSymbol.ofMenus_append (a b : List Menu) :
    ShownSymbol.ofMenus m (a ++ b) = ShownSymbol.ofMenus m a ++ ShownSymbol.ofMenus m b :=
  List.filterMap_append

/-- What a menu shows of its symbol is the symbol that is to be found. -/
theorem shownSymbols_of_showsSymbol {menu : Menu} {nodes : List Node}
    (h : ShowsSymbol m menu.symbol nodes) : shownSymbols nodes = ShownSymbol.ofMenus m [menu] := by
  unfold ShownSymbol.ofMenus
  cases hsymbol : menu.symbol with
  | none =>
    rw [hsymbol] at h
    obtain rfl : nodes = [] := h
    simp [shownSymbols, hsymbol]
  | some id =>
    rw [hsymbol] at h
    obtain ⟨s, content, hs, rfl, hcontent⟩ := h
    have hfound : shownSymbols [.element (symbolTag s.kind s.flags id) content, .char '\n'] =
        [.ofElement (symbolTag s.kind s.flags id) content] := rfl
    rw [hfound, hcontent]
    simp [hsymbol, hs]

/-- The steps of a menu write its symbol, and no other. -/
theorem marks_menuSymbols (h : m.FitsMarkup) (menu : Menu) :
    Marks m (menuSteps m menu) fun nodes =>
      shownSymbols nodes = ShownSymbol.ofMenus m [menu] := by
  apply (marks_menuSteps h menu).mono
  rintro _ ⟨symbol, dep, rfl, hsymbol, hdep⟩
  have hdepSymbols : shownSymbols dep = [] := by
    rcases hdep with rfl | ⟨chars, rfl⟩
    · rfl
    · exact (List.append_nil _).trans (shownSymbols_charNodes chars)
  have hmenu : shownSymbols [.element (menuTag menu.flags) (.char '\n' :: (symbol ++ dep)),
      .char '\n'] = shownSymbols (symbol ++ dep) := List.append_nil _
  rw [hmenu, shownSymbols_append, hdepSymbols, List.append_nil, shownSymbols_of_showsSymbol hsymbol]

/-- Putting a list of menus into its element leaves the symbols in it. -/
theorem marks_submenuSymbols {plan : List (Step Piece)} {shown : List ShownSymbol}
    (h : Marks m plan fun nodes => shownSymbols nodes = shown) :
    Marks m ([.write .openSubmenu] ++ plan ++ [.write .closeSubmenu]) fun nodes =>
      shownSymbols nodes = shown := by
  apply (marks_submenu h).mono
  rintro _ ⟨inner, rfl, hinner⟩
  have hblock : shownSymbols [.element submenuTag (.char '\n' :: inner), .char '\n'] =
      shownSymbols inner := List.append_nil _
  rw [hblock, hinner]

mutual

/-- A menu and all that is below it write their symbols in the order of the menus. -/
theorem marks_withDescendants (h : m.FitsMarkup) : ∀ menu : Menu,
    Marks m ((WalkEvent.ofMenu menu).flatMap (eventSteps m)) fun nodes =>
      shownSymbols nodes = ShownSymbol.ofMenus m menu.withDescendants
  | ⟨flags, symbol, dep, choiceMembers, children⟩ => by
    have hmenu := marks_menuSymbols h ⟨flags, symbol, dep, choiceMembers, children⟩
    have hchildren : Marks m ((WalkEvent.enter children (WalkEvent.ofMenus children)).flatMap
        (eventSteps m)) fun nodes =>
          shownSymbols nodes = ShownSymbol.ofMenus m (Menu.preorder children) := by
      have hblock := marks_submenuSymbols (marks_preorder h children)
      unfold WalkEvent.enter
      cases children with
      | nil =>
        apply Marks.nil.mono
        rintro _ rfl
        rfl
      | cons child children => simpa [eventSteps] using hblock
    rw [WalkEvent.ofMenu, List.flatMap_cons]
    apply (hmenu.append hchildren).mono
    rintro _ ⟨x, y, hx, hy, rfl⟩
    rw [shownSymbols_append, hx, hy, ← ShownSymbol.ofMenus_append]
    rfl

/-- The events of a list of menus show the symbols of these menus and of all below them. -/
theorem marks_preorder (h : m.FitsMarkup) : ∀ menus : List Menu,
    Marks m ((WalkEvent.ofMenus menus).flatMap (eventSteps m)) fun nodes =>
      shownSymbols nodes = ShownSymbol.ofMenus m (Menu.preorder menus)
  | [] => by
    apply Marks.nil.mono
    rintro _ rfl
    rfl
  | menu :: rest => by
    rw [WalkEvent.ofMenus, List.flatMap_append]
    apply ((marks_withDescendants h menu).append (marks_preorder h rest)).mono
    rintro _ ⟨x, y, hx, hy, rfl⟩
    rw [shownSymbols_append, hx, hy, ← ShownSymbol.ofMenus_append]
    rfl

end

/-- What is found in a dump that comes to its end is the symbols of the menus below the root, each
with its name and the texts of its properties, and no tag is found but those of the pieces. -/
theorem dump_shows_symbols (h : m.FitsMarkup) (hending : (dump m).ending = .ok ()) :
    ∃ nodes, Markup.ofText? (dump m).output = some nodes ∧
      shownSymbols nodes = ShownSymbol.ofMenus m m.menus ∧
      nodesTags nodes = planTags (steps m) := by
  have hall := (Marks.note .dumping).append
    (marks_submenuSymbols (marks_preorder h m.root.children))
  unfold dump at hending ⊢
  rw [steps_eq] at hending ⊢
  obtain ⟨nodes, hspells, htags, _, _, rfl, hshown, rfl⟩ := hall hending
  refine ⟨_, hspells.ofText?_eq, ?_, htags⟩
  rw [hshown, Model.menus, Menu.descendants_eq_preorder]

/-- A model with markup in a text, of which only the end of a section is left out, and with that in
a name. -/
def markupInText : Model where
  symbols := #[
    { name := some "A]]>&B", kind := .bool,
      properties := [
        { kind := .prompt, text := some "<b>&amp;]]</b>]] >",
          visible := some (.compare .equal (.entry ⟨1⟩) (.truth .yes)) },
        { kind := .default, expr := some (.symbol (.entry ⟨1⟩)) }] },
    { name := some "\"&lt;\"" }]
  root := { children := [{ children := [{ symbol := some ⟨0⟩ }] }] }

/-- The dump of `markupInText` is read as the nodes it is made of, with the markup as characters. -/
theorem markupInText_shown :
    markupInText.FitsMarkup ∧ (dump markupInText).ending = .ok () ∧
      ∃ nodes, Markup.ofText? (dump markupInText).output = some nodes ∧
        shownSymbols nodes =
          [⟨some "0", [some "A]]>_B"],
            [⟨some "prompt", [some "<b>&amp;]]</b>]] >"]⟩, ⟨some "default", []⟩]⟩] ∧
        nodesTags nodes = planTags (steps markupInText) := by
  have htext : ¬ "]]>".toList <:+: "<b>&amp;]]</b>]] >".toList := by decide +kernel
  have hfits : markupInText.FitsMarkup :=
    { name := by decide
      text := by simpa [markupInText] using htext }
  have hending : (dump markupInText).ending = .ok () := by
    rw [dump, steps, Menu.walk_events]
    rfl
  have hmenus : ShownSymbol.ofMenus markupInText markupInText.menus =
      [⟨some "0", [some "A]]>_B"],
        [⟨some "prompt", [some "<b>&amp;]]</b>]] >"]⟩, ⟨some "default", []⟩]⟩] := by
    rw [Model.menus, Menu.descendants_eq_preorder]
    rfl
  obtain ⟨nodes, hread, hshown, htags⟩ := dump_shows_symbols hfits hending
  exact ⟨hfits, hending, nodes, hread, hshown.trans hmenus, htags⟩

/-- A model with the end of a section in a text. -/
def endOfSection : Model where
  symbols := #[
    { name := some "A", kind := .bool, properties := [{ kind := .prompt, text := some "a]]>b" }] }]
  root := { children := [{ symbol := some ⟨0⟩ }] }

/-- A model with a tag in a name. -/
def tagInName : Model where
  symbols := #[{ name := some "A<b>", kind := .bool }]
  root := { children := [{ symbol := some ⟨0⟩ }] }

/-- A text with the end of a section in it is read without that end, and what comes after it in the
text is before the characters that were to end the section. A tag in a name is read as a tag, which
nothing closes. -/
theorem endOfSection_misread :
    endOfSection.validate = .ok () ∧ (dump endOfSection).ending = .ok () ∧
      (¬ ∃ nodes, Markup.ofText? (dump endOfSection).output = some nodes ∧
        shownSymbols nodes = ShownSymbol.ofMenus endOfSection endOfSection.menus) ∧
      tagInName.validate = .ok () ∧ (dump tagInName).ending = .ok () ∧
      Markup.ofText? (dump tagInName).output = none := by
  have hvalid : ∀ m ∈ [endOfSection, tagInName], m.validate = .ok () := by
    simp only [Model.validate, Model.menus, Menu.descendants_eq_preorder]
    decide +kernel
  have hread : (Markup.ofText? (dump endOfSection).output).map shownSymbols =
      some [⟨some "0", [some "A"], [⟨some "prompt", [some "ab]]>"]⟩]⟩] := by
    rw [dump, steps, Menu.walk_events]
    decide +kernel
  have hmenus : ShownSymbol.ofMenus endOfSection endOfSection.menus =
      [⟨some "0", [some "A"], [⟨some "prompt", [some "a]]>b"]⟩]⟩] := by
    rw [Model.menus, Menu.descendants_eq_preorder]
    rfl
  refine ⟨hvalid _ (by simp), ?_, ?_, hvalid _ (by simp), ?_, ?_⟩
  · rw [dump, steps, Menu.walk_events]
    rfl
  · rintro ⟨nodes, hnodes, hshown⟩
    rw [hnodes, Option.map_some, hshown, hmenus] at hread
    exact absurd hread (by decide)
  · rw [dump, steps, Menu.walk_events]
    rfl
  · rw [← Option.isNone_iff_eq_none, dump, steps, Menu.walk_events]
    decide +kernel

end Dump

end Kconfig
