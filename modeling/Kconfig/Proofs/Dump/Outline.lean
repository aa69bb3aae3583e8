import Kconfig.Proofs.Dump.Nesting

/-!
# The menu tree can be read back

A reader of the dump finds menus and blocks of menus (`Outline.ofNodes?`). A block is the children
of the menu that it follows, so the reader goes through a list of nodes from its end: what is read
of a block is kept until the menu before it is there to take it.

Where the dump is properly nested, what is read back is the menus below the root, each with its
flags, its symbol and what is below it (`Dump.dump_reads_back`). The events of the walk are those of
a recursion on the tree, and the proof follows the recursion.
-/

namespace Kconfig

open Markup

/-- A menu as the dump shows it: its flags, the position of its symbol, if it has one, and what is
below it. -/
structure Outline where
  flags : Nat
  symbol : Option Nat
  children : List Outline

namespace Outline

mutual

/-- What the dump shows of a menu and all that is below it. -/
def ofMenu : Menu → Outline
  | ⟨flags, symbol, _, _, children⟩ =>
    ⟨flags.bits.toNat, symbol.map SymbolId.position, ofMenus children⟩

/-- What the dump shows of menus. -/
def ofMenus : List Menu → List Outline
  | [] => []
  | menu :: rest => ofMenu menu :: ofMenus rest

end

/-- The outline of a menu has its flags, the id of its symbol and the outlines of its children. -/
theorem ofMenu_eq (menu : Menu) :
    ofMenu menu =
      ⟨menu.flags.bits.toNat, menu.symbol.map SymbolId.position, ofMenus menu.children⟩ := by
  cases menu
  rfl

/-! ## The reader -/

/-- The number that a text of digits spells. -/
def digits? (text : String) : Option Nat :=
  if text ≠ "" ∧ text.toList.all Char.isDigit then some (Nat.ofDigitChars 10 text.toList 0)
  else none

/-- A number among the attributes of a tag. -/
def number? (tag : Tag) (key : String) : Option Nat :=
  (tag.attributes.lookup key).bind digits?

/-- The tag of an element with the given name. -/
def tag? (name : String) : Node → Option Tag
  | .element tag _ => if tag.name = name then some tag else none
  | .char _ => none

/-- The position of the symbol that a menu shows, if it shows one. -/
def symbol? (content : List Node) : Option (Option Nat) :=
  match content.filterMap (tag? "symbol") with
  | [] => some none
  | [tag] => (number? tag "id").map some
  | _ => none

/-- What a node is to the reader. -/
inductive Item where
  /-- A blank. -/
  | gap
  /-- A menu without its children. -/
  | menu (flags : Nat) (symbol : Option Nat)
  /-- A block of menus. -/
  | block (menus : List Outline)

/-- Puts an item in front of what was read after it: a block that no menu has taken yet, if there
is one, and the menus after the block. -/
def Item.before : Item → Option (List Outline) × List Outline →
    Option (Option (List Outline) × List Outline)
  | gap, read => some read
  | menu flags symbol, (waiting, menus) => some (none, ⟨flags, symbol, waiting.getD []⟩ :: menus)
  | block menus, (none, after) => some (some menus, after)
  | block _, (some _, _) => none

mutual

/-- A node by itself. -/
def item? : Node → Option Item
  | .char c => if Text.isBlank c then some .gap else none
  | .element tag content =>
    match tag.name with
    | "menu" => do return .menu (← number? tag "flags") (← symbol? content)
    | "submenu" =>
      match level? content with
      | some (none, menus) => some (.block menus)
      | _ => none
    | _ => none

/-- Nodes, from the last one to the first. -/
def level? : List Node → Option (Option (List Outline) × List Outline)
  | [] => some (none, [])
  | node :: rest => do (← item? node).before (← level? rest)

end

/-- The menus of a dump, which is one block. -/
def ofNodes? (nodes : List Node) : Option (List Outline) :=
  match level? nodes with
  | some (some menus, []) => some menus
  | _ => none

/-- The decimal digits of a number are read back as the number. -/
theorem digits?_toString (n : Nat) : digits? (toString n) = some n := by
  have hdigits : (toString n).toList = Nat.toDigits 10 n := Nat.toList_repr
  have hne : toString n ≠ "" := by
    rw [← String.toList_inj.ne, hdigits]
    exact Nat.toDigits_ne_nil
  have hall : (Nat.toDigits 10 n).all Char.isDigit := by
    rw [List.all_eq_true]
    intro c hc
    exact Nat.isDigit_of_mem_toDigits (by decide) (by decide) hc
  rw [digits?, hdigits, if_pos ⟨hne, hall⟩, Nat.ofDigitChars_toDigits (by decide) (by decide)]

/-- The flags in the tag of a menu are read back. -/
theorem number?_flags (flags : MenuFlags) :
    number? (Dump.menuTag flags) "flags" = some flags.bits.toNat :=
  digits?_toString _

/-- The id in the tag of a symbol is read back. -/
theorem number?_id (kind : SymbolKind) (flags : SymbolFlags) (id : SymbolId) :
    number? (Dump.symbolTag kind flags id) "id" = some id.position :=
  digits?_toString _

/-- The ends of lines are nothing to the reader. -/
theorem level?_newline (rest : List Node) : level? (.char '\n' :: rest) = level? rest := by
  have hgap : item? (.char '\n') = some .gap := rfl
  rw [level?, hgap]
  cases level? rest <;> rfl

/-- A menu takes the block after it. -/
theorem level?_menu (flags : MenuFlags) {content rest : List Node} {symbol : Option Nat}
    {block : Option (List Outline)} {menus : List Outline} (hsymbol : symbol? content = some symbol)
    (hrest : level? rest = some (block, menus)) :
    level? (.element (Dump.menuTag flags) content :: rest) =
      some (none, ⟨flags.bits.toNat, symbol, block.getD []⟩ :: menus) := by
  have hmenu : item? (.element (Dump.menuTag flags) content) =
      some (.menu flags.bits.toNat symbol) := by
    have hflags := number?_flags flags
    unfold Dump.menuTag at *
    simp only [item?, hflags, hsymbol]
    rfl
  rw [level?, hmenu, hrest]
  rfl

/-- A block of children in front of menus is read as the children of the menu before it. -/
theorem level?_submenu {content rest : List Node} {children menus : List Outline}
    (hcontent : level? content = some (none, children)) (hrest : level? rest = some (none, menus)) :
    level? (.element Dump.submenuTag content :: rest) = some (some children, menus) := by
  have hblock : item? (.element Dump.submenuTag content) = some (.block children) := by
    unfold Dump.submenuTag
    simp only [item?, hcontent]
  rw [level?, hblock, hrest]
  rfl

/-- A line break in front of the content of a menu is passed over. -/
theorem symbol?_newline (content : List Node) : symbol? (.char '\n' :: content) = symbol? content :=
  rfl

/-- The element of a symbol is read as its id. -/
theorem symbol?_symbol (kind : SymbolKind) (flags : SymbolFlags) (id : SymbolId)
    (content : List Node) :
    symbol? [.element (Dump.symbolTag kind flags id) content, .char '\n'] =
      some (some id.position) := by
  have hid := number?_id kind flags id
  unfold Dump.symbolTag at *
  simp only [symbol?, List.filterMap_cons, List.filterMap_nil, tag?, if_true, hid, Option.map_some]

/-- What has no symbol in it may follow the symbol of a menu. -/
theorem symbol?_append {a b : List Node} (hb : b.filterMap (tag? "symbol") = []) :
    symbol? (a ++ b) = symbol? a := by
  unfold symbol?
  rw [List.filterMap_append, hb, List.append_nil]

/-- Whether nodes are read as menus, in front of whatever menus are read after them. -/
def Shows (nodes : List Node) (menus : List Outline) : Prop :=
  ∀ rest after, level? rest = some (none, after) →
    level? (nodes ++ rest) = some (none, menus ++ after)

/-- Whether nodes are read as what follows a menu: a block of its children, or nothing if it has
none. -/
def ShowsChildren (nodes : List Node) (children : List Outline) : Prop :=
  ∀ rest after, level? rest = some (none, after) →
    ∃ block, level? (nodes ++ rest) = some (block, after) ∧ block.getD [] = children

/-- Menus are shown one after the other. -/
theorem Shows.append {a b : List Node} {menus menus' : List Outline} (ha : Shows a menus)
    (hb : Shows b menus') : Shows (a ++ b) (menus ++ menus') := by
  intro rest after hrest
  rw [List.append_assoc, List.append_assoc]
  exact ha _ _ (hb rest after hrest)

end Outline

namespace Dump

open Outline (Shows ShowsChildren)

variable {m : Model}

/-! ## The dump as the reader sees it -/

/-- What a menu shows of its symbol is found. -/
theorem symbol?_of_showsSymbol {symbol : Option SymbolId} {nodes : List Node}
    (h : ShowsSymbol m symbol nodes) :
    Outline.symbol? nodes = some (symbol.map SymbolId.position) := by
  cases symbol with
  | none =>
    obtain rfl : nodes = [] := h
    rfl
  | some id =>
    obtain ⟨s, content, -, rfl, -⟩ := h
    exact Outline.symbol?_symbol s.kind s.flags id content

/-- A menu is shown as an element, with its flags and its symbol. -/
theorem marks_menuOutline (h : m.FitsMarkup) (menu : Menu) :
    Marks m (menuSteps m menu) fun nodes =>
      ∃ content, nodes = [.element (menuTag menu.flags) content, .char '\n'] ∧
        Outline.symbol? content = some (menu.symbol.map SymbolId.position) := by
  apply (marks_menuSteps h menu).mono
  rintro _ ⟨symbol, dep, rfl, hsymbol, hdep⟩
  have hdepTags : dep.filterMap (Outline.tag? "symbol") = [] := by
    rcases hdep with rfl | ⟨chars, rfl⟩ <;> rfl
  refine ⟨_, rfl, ?_⟩
  rw [Outline.symbol?_newline, Outline.symbol?_append hdepTags, symbol?_of_showsSymbol hsymbol]

/-- The pieces around a list of menus make a block of it. -/
theorem marks_block {plan : List (Step Piece)} {menus : List Outline}
    (h : Marks m plan fun nodes => Shows nodes menus) :
    Marks m ([.write .openSubmenu] ++ plan ++ [.write .closeSubmenu]) fun nodes =>
      ∀ rest after, Outline.level? rest = some (none, after) →
        Outline.level? (nodes ++ rest) = some (some menus, after) := by
  apply (marks_submenu h).mono
  rintro _ ⟨inner, rfl, hinner⟩ rest after hrest
  have hcontent : Outline.level? (.char '\n' :: inner) = some (none, menus) := by
    have hlevel := hinner [] [] rfl
    rw [List.append_nil, List.append_nil] at hlevel
    rw [Outline.level?_newline, hlevel]
  have hafter : Outline.level? (.char '\n' :: rest) = some (none, after) := by
    rw [Outline.level?_newline, hrest]
  exact Outline.level?_submenu hcontent hafter

/-- The children of a menu are shown in a block, if there are any. -/
theorem marks_enter {children : List Menu} {inner : List WalkEvent}
    (h : Marks m (inner.flatMap (eventSteps m)) fun nodes =>
      Shows nodes (Outline.ofMenus children)) :
    Marks m ((WalkEvent.enter children inner).flatMap (eventSteps m)) fun nodes =>
      ShowsChildren nodes (Outline.ofMenus children) := by
  unfold WalkEvent.enter
  cases children with
  | nil =>
    apply Marks.nil.mono
    rintro _ rfl rest after hrest
    exact ⟨none, hrest, rfl⟩
  | cons child children =>
    simp only [List.isEmpty_cons, Bool.false_eq_true, if_false, List.cons_append,
      List.flatMap_cons, List.flatMap_append]
    apply (marks_block h).mono
    intro nodes hnodes rest after hrest
    exact ⟨_, hnodes rest after hrest, rfl⟩

mutual

/-- A menu and all that is below it is shown as its outline. -/
theorem marks_ofMenu (h : m.FitsMarkup) : ∀ menu : Menu,
    Marks m ((WalkEvent.ofMenu menu).flatMap (eventSteps m)) fun nodes =>
      Shows nodes [Outline.ofMenu menu]
  | ⟨flags, symbol, dep, choiceMembers, children⟩ => by
    have hmenu := marks_menuOutline h ⟨flags, symbol, dep, choiceMembers, children⟩
    have hchildren := marks_enter (marks_ofMenus h children)
    rw [WalkEvent.ofMenu, List.flatMap_cons]
    apply (hmenu.append hchildren).mono
    rintro _ ⟨_, after, ⟨content, rfl, hsymbol⟩, hafter, rfl⟩ rest menus hrest
    obtain ⟨block, hblock, hvalue⟩ := hafter rest menus hrest
    rw [← Outline.level?_newline] at hblock
    have hlevel := Outline.level?_menu flags hsymbol hblock
    rw [hvalue] at hlevel
    exact hlevel

/-- The events of a list of menus are shown as these menus. -/
theorem marks_ofMenus (h : m.FitsMarkup) : ∀ menus : List Menu,
    Marks m ((WalkEvent.ofMenus menus).flatMap (eventSteps m)) fun nodes =>
      Shows nodes (Outline.ofMenus menus)
  | [] => by
    apply Marks.nil.mono
    rintro _ rfl rest after hrest
    exact hrest
  | menu :: rest => by
    rw [WalkEvent.ofMenus, List.flatMap_append]
    apply ((marks_ofMenu h menu).append (marks_ofMenus h rest)).mono
    rintro _ ⟨x, y, hx, hy, rfl⟩
    exact hx.append hy

end

/-- A dump that comes to its end is properly nested if names and texts have no angle brackets, and
what is read back from it is the menus below the root. Nothing else is asked of the model. -/
theorem dump_reads_back (h : m.IsTagFree) (hending : (dump m).ending = .ok ()) :
    ∃ nodes, Markup.ofText? (dump m).output = some nodes ∧
      Outline.ofNodes? nodes = some (Outline.ofMenus m.root.children) := by
  have hall := (Marks.note .dumping).append
    (marks_block (marks_ofMenus h.fitsMarkup m.root.children))
  unfold dump at hending ⊢
  rw [steps_eq] at hending ⊢
  obtain ⟨nodes, hspells, -, _, _, rfl, hblock, rfl⟩ := hall hending
  have hlevel := hblock [] [] rfl
  rw [List.append_nil] at hlevel
  refine ⟨nodes, hspells.ofText?_eq, ?_⟩
  rw [Outline.ofNodes?, hlevel]

/-- A model with menus at three levels, of which some have no symbol. -/
def nestedMenus : Model where
  symbols := #[
    { name := some "A&B", kind := .bool,
      properties := [
        { kind := .prompt, text := some "Fish & chips",
          visible := some (.and (.symbol (.entry ⟨1⟩)) (.symbol (.truth .yes))) }] },
    { name := some "C", kind := .int }]
  root := {
    children := [
      { flags := .changed, symbol := some ⟨0⟩,
        children := [{ symbol := some ⟨1⟩, children := [{}] }, {}] },
      { dep := some (.symbol (.entry ⟨0⟩)) }] }

/-- The outline of `nestedMenus` is read back from its dump. -/
theorem nestedMenus_reads_back :
    nestedMenus.IsTagFree ∧ (dump nestedMenus).ending = .ok () ∧
      ∃ nodes, Markup.ofText? (dump nestedMenus).output = some nodes ∧
        Outline.ofNodes? nodes =
          some [⟨1, some 0, [⟨0, some 1, [⟨0, none, []⟩]⟩, ⟨0, none, []⟩]⟩, ⟨0, none, []⟩] := by
  have hfree : nestedMenus.IsTagFree := ⟨by decide, by decide⟩
  have hending : (dump nestedMenus).ending = .ok () := by
    rw [dump, steps, Menu.walk_events]
    rfl
  exact ⟨hfree, hending, dump_reads_back hfree hending⟩

end Dump

end Kconfig
