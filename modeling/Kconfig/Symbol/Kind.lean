/-!
# Kinds of symbols and of properties

A symbol is declared with a type, or it is not declared at all and its kind is `unknown`: a
constant such as `42`, or a name that no configuration file declares. Each output has its own
words for the kinds.
-/

namespace Kconfig

/-- The declared type of a symbol. -/
inductive SymbolKind where
  /-- Without a type. -/
  | unknown
  | bool
  | tristate
  | int
  | hex
  | string
deriving DecidableEq

namespace SymbolKind

/-- The word for the kind in the model's JSON form and in messages. -/
def label : SymbolKind → String
  | unknown => "unknown"
  | bool => "bool"
  | tristate => "tristate"
  | int => "int"
  | hex => "hex"
  | string => "string"

/-- The kinds whose values are truth values. -/
def isBoolean : SymbolKind → Bool
  | bool | tristate => true
  | _ => false

/-- The kinds whose values are numbers or texts. -/
def isNonboolean : SymbolKind → Bool
  | int | hex | string => true
  | _ => false

/-- The word for the kind in a declaration record. Symbols without a type are not declared. -/
def constraintName : SymbolKind → Option String
  | bool => some "bool"
  | tristate => some "tristate"
  | int | hex => some "number"
  | string => some "string"
  | unknown => none

/-- The word for the kind in the dump, where symbols without a type pass for integers. -/
def dumpName : SymbolKind → String
  | bool => "boolean"
  | tristate => "tristate"
  | int | unknown => "integer"
  | hex => "hex"
  | string => "string"

end SymbolKind

/-- What a property says about its symbol. -/
inductive PropertyKind where
  | prompt
  | comment
  | menu
  | default
  | choice
  | select
  | imply
  | range
  | env
  /-- The place where the symbol is declared. -/
  | symbol
deriving DecidableEq

namespace PropertyKind

/-- The word for the kind in the model's JSON form. -/
def label : PropertyKind → String
  | prompt => "prompt"
  | comment => "comment"
  | menu => "menu"
  | default => "default"
  | choice => "choice"
  | select => "select"
  | imply => "imply"
  | range => "range"
  | env => "env"
  | symbol => "symbol"

/-- The word for the kind in the dump, whose readers know no weak form of `select`. -/
def dumpName : PropertyKind → String
  | imply => "select"
  | kind => kind.label

end PropertyKind

end Kconfig
