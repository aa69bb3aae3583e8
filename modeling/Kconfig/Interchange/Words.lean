import Kconfig.Model.Basic

/-!
# The words of the model's JSON form

A value of a small closed type is written as a word. Each table lists the values of one type with
their words; reading looks the word up and writing takes the label, from which the tables are made.
-/

namespace Kconfig.Interchange

/-- The words of a closed type. -/
abbrev Words (α : Type) := List (String × α)

/-- The truth values. -/
def tristates : Words Tristate :=
  [Tristate.yes, .mod, .no].map fun t => (t.letter, t)

/-- The kinds of symbols. -/
def symbolKinds : Words SymbolKind :=
  [SymbolKind.unknown, .bool, .tristate, .int, .hex, .string].map fun kind => (kind.label, kind)

/-- The kinds of properties. -/
def propertyKinds : Words PropertyKind :=
  [PropertyKind.prompt, .comment, .menu, .default, .choice, .select, .imply, .range, .env,
    .symbol].map fun kind => (kind.label, kind)

/-- The shapes in which the members of a choice are recorded. -/
def choiceShapes : Words ChoiceShape :=
  [ChoiceShape.property, .menu].map fun shape => (shape.label, shape)

/-- The word for the operator of an expression. -/
def operatorWord : ExprKind → String
  | .symbol => "symbol"
  | .not => "not"
  | .comparison .equal => "equal"
  | .comparison .unequal => "unequal"
  | .comparison .less => "less"
  | .comparison .lessEqual => "less_equal"
  | .comparison .greater => "greater"
  | .comparison .greaterEqual => "greater_equal"
  | .and => "and"
  | .or => "or"
  | .list => "list"
  | .range => "range"
  | .unknown => "unknown"

/-- The operators of expressions, in the order of their numbers. -/
def operators : Words ExprKind :=
  [ExprKind.symbol, .not, .comparison .equal, .comparison .unequal, .comparison .less,
    .comparison .lessEqual, .comparison .greater, .comparison .greaterEqual, .and, .or, .list,
    .range, .unknown].map fun kind => (operatorWord kind, kind)

/-- The fields of an expression beside its operator, in their declared order. -/
def operandFields : ExprKind → List String
  | .symbol => ["sym"]
  | .not => ["expr"]
  | .comparison _ | .and | .or => ["left", "right"]
  | .list => ["sym", "next"]
  | .range => ["low", "high"]
  | .unknown => []

/-- The fields of a property. -/
def propertyFields : List String := ["type", "text", "expr", "visible"]

/-- The fields of a symbol. -/
def symbolFields : List String := ["name", "type", "flags", "properties", "rev_dep", "dir_dep"]

/-- The fields of a menu. -/
def menuFields : List String := ["flags", "symbol", "dep", "choice_members", "children"]

/-- The fields of the capabilities. -/
def capabilityFields : List String := ["choice_members", "optional_choices"]

/-- The fields of a model. -/
def modelFields : List String := ["capabilities", "symbols", "root"]

end Kconfig.Interchange
