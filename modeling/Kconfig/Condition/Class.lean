import Kconfig.Model.Lookup

/-!
# What a reference stands for in a condition

Truth values stand for themselves, and so do symbols without a name, which count as true. A named
symbol without a type is a value that was written out, such as `42`. All other named symbols are
options, which constraints call by an identifier: the name after a prefix of the user's choice,
where `&` is replaced, since it is an operator to those who read the constraints.
-/

namespace Kconfig

/-- What a reference stands for. -/
inductive SymbolClass where
  | truth (value : Bool)
  /-- A value by its spelling. -/
  | value (name : String)
  /-- An option by its name. -/
  | option (name : String)
deriving DecidableEq

/-- What an entry of the table stands for. -/
def Symbol.class (s : Symbol) : SymbolClass :=
  match s.named with
  | none => .truth true
  | some name => if s.kind = .unknown then .value name else .option name

/-- What a reference stands for. -/
def Model.classify (m : Model) : SymbolRef → Run SymbolClass
  | .truth t => pure (.truth t.isTrue)
  | .entry id => do return (← m.find id).class

/-- The identifier of an option. -/
def identifier (namePrefix name : String) : String :=
  namePrefix ++ String.ofList (name.toList.map fun c => if c = '&' then '_' else c)

end Kconfig
