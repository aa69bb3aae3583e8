import Kconfig.Expr.Basic
import Kconfig.Flags
import Kconfig.Symbol.Kind

/-!
# Symbols

A symbol is a configuration option, a choice, or a value that the configuration files mention.
What the files say about it is a list of properties, in the order in which they were read; the
order matters only among properties of one kind.
-/

namespace Kconfig

/-- One thing that is said about a symbol. -/
structure Property where
  kind : PropertyKind
  /-- The text of a prompt, menu or comment. -/
  text : Option String := none
  /-- The value: a default, a selected symbol, the members of a choice, a range. -/
  expr : Option Expr := none
  /-- The condition under which the property applies. -/
  visible : Option Expr := none

/-- An entry of the symbol table. -/
structure Symbol where
  /-- Absent where the symbol was never named, as for most choices. -/
  name : Option String := none
  kind : SymbolKind := .unknown
  flags : SymbolFlags := .none
  properties : List Property := []
  /-- The disjunction of all that selects the symbol. -/
  revDep : Option Expr := none
  /-- The conjunction of the dependencies around the declaration. -/
  dirDep : Option Expr := none

namespace Symbol

/-- The name, if the symbol has one that is not empty. -/
def named (s : Symbol) : Option String :=
  match s.name with
  | some name => if name = "" then none else some name
  | none => none

/-- Whether the symbol is the container of a choice. -/
def isChoice (s : Symbol) : Bool :=
  s.flags.contains .choice

/-- Whether the symbol is a constant. -/
def isConstant (s : Symbol) : Bool :=
  s.flags.contains .constant

/-- The properties of one kind, in their order. -/
def propertiesOf (s : Symbol) (kind : PropertyKind) : List Property :=
  s.properties.filter fun p => p.kind = kind

/-- The prompts, in their order. -/
def prompts (s : Symbol) : List Property :=
  s.propertiesOf .prompt

/-- The defaults, in their order. -/
def defaults (s : Symbol) : List Property :=
  s.propertiesOf .default

/-- The selects, in their order; weak ones do not count. -/
def selects (s : Symbol) : List Property :=
  s.propertiesOf .select

/-- Whether the symbol is on by default and out of the user's hands: it has no prompt, nothing
selects it but a tautology, and some default is `y`, `m` or without a value, under no condition
but a tautology. -/
def isDefault (s : Symbol) : Bool :=
  s.prompts.isEmpty && isTautology s.revDep &&
    s.defaults.any fun p =>
      isTautology p.visible &&
        match p.expr with
        | none => true
        | some value => value.isYes || value.isMod

/-- Sets more flags. -/
def withFlags (s : Symbol) (flags : SymbolFlags) : Symbol :=
  { s with flags := s.flags.union flags }

/-- Adds a property after the others. -/
def withProperty (s : Symbol) (p : Property) : Symbol :=
  { s with properties := s.properties ++ [p] }

end Symbol

end Kconfig
