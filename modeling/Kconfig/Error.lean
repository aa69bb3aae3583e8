import Kconfig.Reference
import Kconfig.Symbol.Kind

/-!
# Errors

What can keep the program from reading a model or from writing what is asked for. A model that is
odd but sound is no error: the outputs have a rule for every node of it, or say so in a message.
-/

namespace Kconfig

/-- A cause of failure. -/
inductive Error where
  /-- Writing failed. -/
  | io (cause : String)
  /-- A file cannot be opened. -/
  | cannotOpen (path : String) (cause : String)
  /-- A document is not a model. -/
  | malformed
  /-- A model refers to a symbol that its table does not have. -/
  | danglingSymbol (id : SymbolId) (symbols : Nat)
  /-- A choice is of a type that choices cannot have. -/
  | invalidChoiceType (id : SymbolId) (kind : SymbolKind)
  /-- An expression holds a node that cannot be written. -/
  | unrenderable (context : String)
  /-- No symbol has the name asked for. -/
  | unknownSymbol (name : String)
deriving DecidableEq

namespace Error

/-- The text of the error. -/
def message : Error → String
  | io cause => "I/O error: " ++ cause
  | cannotOpen path cause => "can't open " ++ path ++ ": " ++ cause
  | malformed => "malformed model"
  | danglingSymbol id symbols =>
    "symbol reference " ++ id.label ++ " is out of range (table has " ++ toString symbols ++
      " symbols)"
  | invalidChoiceType id kind =>
    "choice " ++ id.label ++ " has type " ++ kind.label ++
      ", but a choice can only be bool or tristate"
  | unrenderable context => "no rendering rule for expression node in " ++ context
  | unknownSymbol name => "unknown symbol " ++ name

end Error

end Kconfig
