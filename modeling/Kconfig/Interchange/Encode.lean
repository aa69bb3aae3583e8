import Kconfig.Interchange.Words
import Kconfig.Json.Writer

/-!
# Writing models as JSON

A model is written field by field in the declared order. Lists that are empty and values that are
absent are left out; everything else is written, defaults included.
-/

namespace Kconfig.Interchange

/-- A field that is left out where it is absent. -/
def field {α : Type} (name : String) (write : α → Json) : Option α → List (String × Json)
  | some value => [(name, write value)]
  | none => []

/-- A list field that is left out where it is empty. -/
def listField {α : Type} (name : String) (write : α → Json) (items : List α) :
    List (String × Json) :=
  if items.isEmpty then [] else [(name, .array (items.map write))]

/-- A symbol id as JSON. -/
def ofSymbolId (id : SymbolId) : Json :=
  .nat id.position

/-- A reference as JSON. -/
def ofSymbolRef : SymbolRef → Json
  | .truth t => .text t.letter
  | .entry id => ofSymbolId id

/-- The flags of a symbol as JSON. -/
def ofSymbolFlags (flags : SymbolFlags) : Json :=
  .text (SymbolFlags.names.write flags.bits)

/-- The flags of a menu as JSON. -/
def ofMenuFlags (flags : MenuFlags) : Json :=
  .text (MenuFlags.names.write flags.bits)

/-- An expression as JSON. -/
def ofExpr (e : Expr) : Json :=
  let op := ("op", Json.text (operatorWord e.kind))
  match e with
  | .symbol s => .ofMembers [op, ("sym", ofSymbolRef s)]
  | .not operand => .ofMembers [op, ("expr", ofExpr operand)]
  | .compare _ l r => .ofMembers [op, ("left", ofSymbolRef l), ("right", ofSymbolRef r)]
  | .and l r => .ofMembers [op, ("left", ofExpr l), ("right", ofExpr r)]
  | .or l r => .ofMembers [op, ("left", ofExpr l), ("right", ofExpr r)]
  | .listLast member => .ofMembers [op, ("sym", ofSymbolRef member)]
  | .listCons member rest => .ofMembers [op, ("sym", ofSymbolRef member), ("next", ofExpr rest)]
  | .range low high => .ofMembers [op, ("low", ofSymbolRef low), ("high", ofSymbolRef high)]
  | .unknown => .ofMembers [op]

/-- A property as JSON. -/
def ofProperty (p : Property) : Json :=
  .ofMembers <|
    [("type", .text p.kind.label)] ++ field "text" .text p.text ++ field "expr" ofExpr p.expr ++
      field "visible" ofExpr p.visible

/-- A symbol as JSON. -/
def ofSymbol (s : Symbol) : Json :=
  .ofMembers <|
    field "name" .text s.name ++
      [("type", .text s.kind.label), ("flags", ofSymbolFlags s.flags)] ++
      listField "properties" ofProperty s.properties ++ field "rev_dep" ofExpr s.revDep ++
      field "dir_dep" ofExpr s.dirDep

mutual

/-- A menu and all its descendants as JSON. -/
def ofMenu : Menu → Json
  | ⟨flags, symbol, dep, choiceMembers, children⟩ =>
    .ofMembers <|
      [("flags", ofMenuFlags flags)] ++ field "symbol" ofSymbolId symbol ++
        field "dep" ofExpr dep ++ listField "choice_members" ofSymbolId choiceMembers ++
        (if children.isEmpty then [] else [("children", .array (ofMenus children))])

/-- Menus and all their descendants as JSON. -/
def ofMenus : List Menu → List Json
  | [] => []
  | menu :: menus => ofMenu menu :: ofMenus menus

end

/-- Capabilities as JSON. -/
def ofCapabilities (c : Capabilities) : Json :=
  .ofMembers [("choice_members", .text c.choiceMembers.label),
    ("optional_choices", .bool c.optionalChoices)]

/-- A model as JSON. -/
def ofModel (m : Model) : Json :=
  .ofMembers [("capabilities", ofCapabilities m.capabilities),
    ("symbols", .array (m.symbols.toList.map ofSymbol)), ("root", ofMenu m.root)]

end Kconfig.Interchange
