import Kconfig.Menu.Walk
import Kconfig.Symbol.Basic

/-!
# The configuration model

A model is a table of symbols, a tree of menus and the capabilities of the parser that made it.
Nothing changes a model once it is made.

Parsers differ in where they record the members of a choice: in a `choice` property of the choice
or in the first menu that declares it. `Model.choiceMembers` reads either.
-/

namespace Kconfig

/-- Where the members of a choice are recorded. -/
inductive ChoiceShape where
  /-- In the chain that is the value of the choice's `choice` property. -/
  | property
  /-- In the list of the first menu that declares the choice. -/
  | menu
deriving DecidableEq

namespace ChoiceShape

/-- The word for the shape in the model's JSON form. -/
def label : ChoiceShape → String
  | property => "property"
  | menu => "menu"

end ChoiceShape

/-- What the parser that made a model records, and how. -/
structure Capabilities where
  choiceMembers : ChoiceShape := .property
  /-- Whether a choice can be optional. -/
  optionalChoices : Bool := true
deriving DecidableEq

/-- A configuration model. -/
structure Model where
  capabilities : Capabilities := {}
  symbols : Array Symbol := #[]
  root : Menu := {}
  /-- Every entry of the table has an id of its own. -/
  symbols_le : symbols.size ≤ UInt32.size := by simp [UInt32.size]

namespace Model

/-- The entry of the table with the given id, if there is one. -/
def symbol? (m : Model) (id : SymbolId) : Option Symbol :=
  m.symbols[id.position]?

/-- The table with the ids of its entries, in order. -/
def entries (m : Model) : List (SymbolId × Symbol) :=
  m.symbols.toList.mapIdx fun i s => (SymbolId.ofPosition i, s)

/-- The entries that have a name, with it. -/
def namedEntries (m : Model) : List (SymbolId × String × Symbol) :=
  m.entries.filterMap fun (id, s) => s.named.map fun name => (id, name, s)

/-- The first entry of the given name that is no constant. -/
def lookup (m : Model) (name : String) : Option (SymbolId × Symbol) :=
  (m.namedEntries.find? fun (_, n, s) => n = name && !s.isConstant).map fun (id, _, s) => (id, s)

/-- The menus below the root, in pre-order. -/
def menus (m : Model) : List Menu :=
  m.root.descendants

/-- The first menu, in pre-order, that declares the given symbol. -/
def firstMenu (m : Model) (id : SymbolId) : Option Menu :=
  m.menus.find? fun menu => menu.symbol = some id

/-- The members of a choice, in order, read from where the model's parser records them. -/
def choiceMembers (m : Model) (id : SymbolId) (choice : Symbol) : List SymbolRef :=
  match m.capabilities.choiceMembers with
  | .property =>
    match (choice.propertiesOf .choice).head? with
    | some p => (p.expr.map Expr.members).getD []
    | none => []
  | .menu =>
    match m.firstMenu id with
    | some menu => menu.choiceMembers.map SymbolRef.entry
    | none => []

/-- Whether a choice may have no member set, as far as the model's parser tells. -/
def isOptionalChoice (m : Model) (choice : Symbol) : Bool :=
  m.capabilities.optionalChoices && choice.flags.contains .optional

/-- The model of a symbol table, without menus. Tables of more entries than there are ids have
none. -/
def ofSymbols? (symbols : Array Symbol) : Option Model :=
  if h : symbols.size ≤ UInt32.size then some { symbols := symbols, symbols_le := h } else none

/-- The model with another menu tree. -/
def withRoot (m : Model) (root : Menu) : Model :=
  { m with root := root }

/-- The model as made by a parser of other capabilities. -/
def withCapabilities (m : Model) (capabilities : Capabilities) : Model :=
  { m with capabilities := capabilities }

end Model

end Kconfig
