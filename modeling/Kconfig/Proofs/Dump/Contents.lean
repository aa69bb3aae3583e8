import Kconfig.Dump.Tree
import Kconfig.Proofs.Markup.Tree

/-!
# The symbols in a dump

A reader of the dump finds the elements of symbols, wherever they stand (`shownSymbols`), and in
each its names and its properties, and in a property its texts. A name or text is what its element
holds, if that is characters and no tags (`Markup.chars?`).

What is found in nodes that stand next to each other is what is found in each. What there is to
find of a symbol is `ShownSymbol.ofSymbol`.
-/

namespace Kconfig

open Markup

/-- A property in a dump: its type and what its texts are, one if the property has a text. -/
structure ShownProperty where
  type : Option String
  texts : List (Option String)
deriving DecidableEq

/-- A symbol in a dump: its id, what its names are, one if the symbol has a name, and its
properties. -/
structure ShownSymbol where
  id : Option String
  names : List (Option String)
  properties : List ShownProperty
deriving DecidableEq

/-! ## The reader -/

namespace Markup

/-- The character that a node is. -/
def Node.char? : Node → Option Char
  | .char c => some c
  | .element _ _ => none

/-- The characters that nodes are, if there are no tags among them. -/
def chars? (nodes : List Node) : Option String :=
  (nodes.mapM Node.char?).map String.ofList

/-- The nodes of the characters of a text are read back as the text. -/
theorem chars?_charNodes (s : String) : chars? (charNodes s) = some s := by
  have hchars : ∀ cs : List Char, (cs.map Node.char).mapM Node.char? = some cs := by
    intro cs
    induction cs with
    | nil => rfl
    | cons c cs ih =>
      rw [List.map_cons, List.mapM_cons, ih]
      rfl
  unfold chars? charNodes
  rw [hchars, Option.map_some, String.ofList_toList]

/-- What the elements of a name hold. -/
def contents (name : String) (nodes : List Node) : List (Option String) :=
  nodes.filterMap fun
    | .element tag content => if tag.name = name then some (chars? content) else none
    | .char _ => none

/-- What the elements of a name hold is collected through nodes in a row. -/
theorem contents_append (name : String) (a b : List Node) :
    contents name (a ++ b) = contents name a ++ contents name b :=
  List.filterMap_append

end Markup

/-- The properties among some nodes. -/
def shownProperties (nodes : List Node) : List ShownProperty :=
  nodes.filterMap fun
    | .element tag content =>
      if tag.name = "property" then some ⟨tag.attributes.lookup "type", contents "text" content⟩
      else none
    | .char _ => none

/-- The properties are collected through nodes in a row. -/
theorem shownProperties_append (a b : List Node) :
    shownProperties (a ++ b) = shownProperties a ++ shownProperties b :=
  List.filterMap_append

/-- The symbol that an element is, from its tag and what is in it. -/
def ShownSymbol.ofElement (tag : Tag) (content : List Node) : ShownSymbol :=
  ⟨tag.attributes.lookup "id", contents "name" content, shownProperties content⟩

mutual

/-- The symbols in a node. -/
def Markup.Node.shownSymbols : Node → List ShownSymbol
  | .char _ => []
  | .element tag content =>
    if tag.name = "symbol" then [.ofElement tag content] else shownSymbols content

/-- The symbols in nodes. -/
def shownSymbols : List Node → List ShownSymbol
  | [] => []
  | node :: nodes => node.shownSymbols ++ shownSymbols nodes

end

/-- The symbols are collected through nodes in a row. -/
theorem shownSymbols_append (a b : List Node) :
    shownSymbols (a ++ b) = shownSymbols a ++ shownSymbols b := by
  induction a with
  | nil => rfl
  | cons node a ih => rw [List.cons_append, shownSymbols, shownSymbols, ih, List.append_assoc]

/-- There is no symbol among characters. -/
theorem shownSymbols_charNodes (s : String) : shownSymbols (charNodes s) = [] := by
  unfold charNodes
  induction s.toList with
  | nil => rfl
  | cons c cs ih => exact ih

/-! ## What there is to find -/

/-- A property as it is to be found. -/
def ShownProperty.ofProperty (p : Property) : ShownProperty :=
  ⟨some p.kind.dumpName, p.text.toList.map some⟩

/-- A symbol as it is to be found: its name is an identifier without a prefix, and if it is a choice
whose members are in a menu, there is a property for them. -/
def ShownSymbol.ofSymbol (m : Model) (id : SymbolId) (s : Symbol) : ShownSymbol :=
  ⟨some (toString id.position), (s.name.map (identifier "")).toList.map some,
    s.properties.map .ofProperty ++
      if s.isChoice && m.capabilities.choiceMembers = .menu then [⟨some "choice", []⟩] else []⟩

/-- The symbols of some menus, as they are to be found. -/
def ShownSymbol.ofMenus (m : Model) (menus : List Menu) : List ShownSymbol :=
  menus.filterMap fun menu => menu.symbol.bind fun id => (m.symbol? id).map (ofSymbol m id)

end Kconfig
