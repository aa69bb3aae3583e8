import Kconfig.Condition.Printer

/-!
# Constraint records

The constraint encoding of a model is a sequence of records, one to a line. A record says what it
is about in its first words; conditions stand in parentheses, and a value or a list of members is
divided from the condition under which it holds by a bar.
-/

namespace Kconfig

/-- A line of the constraint encoding. Options are given by their names. -/
inductive Record where
  /-- There is an option of the given type. -/
  | config (name : String) (type : String)
  /-- The user can set the option under the condition. -/
  | prompt (name : String) (visible : Option Expr)
  /-- Under the condition, the option has the value unless it is set. -/
  | default (name : String) (boolean : Bool) (value : Expr) (visible : Option Expr)
  /-- Under the condition, one of the members is set; at most one, if the choice is optional. The
  choice may have prompts beside the one whose condition this is. -/
  | choice (id : SymbolId) (tristate optional : Bool) (members : List SymbolRef)
    (visible : Option Expr) (morePrompts : Bool)
  /-- The option can be set only under the condition. -/
  | dep (name : String) (condition : Option Expr)
  /-- Where the option is set, and under the condition, it sets what it selects. -/
  | select (selected : Option Expr) (name : String) (visible : Option Expr)
  /-- Under the condition, something sets the option. -/
  | revDep (name : String) (condition : Option Expr)

namespace Record

/-- The first word of a choice record. -/
def choiceWord (tristate optional : Bool) : String :=
  match tristate, optional with
  | false, false => "bool_choice"
  | false, true => "bool_opt_choice"
  | true, false => "tristate_choice"
  | true, true => "tristate_opt_choice"

/-- The first word of a default record. -/
def defaultWord (boolean : Bool) : String :=
  if boolean then "def_bool" else "def_nonbool"

/-- The text of a record, without the end of the line. -/
def text (p : Printer) : Record → Run String
  | config name type => return "config " ++ identifier p.namePrefix name ++ " " ++ type
  | prompt name visible => do
    let guard ← p.condition visible
    return "prompt " ++ identifier p.namePrefix name ++ " (" ++ guard ++ ")"
  | default name boolean value visible => do
    let value ← p.render none value
    let guard ← p.condition visible
    return defaultWord boolean ++ " " ++ identifier p.namePrefix name ++ " " ++ value ++ "|(" ++
      guard ++ ")"
  | choice id tristate optional members visible morePrompts => do
    let members ← members.mapM (p.symbol .plain)
    let guard ← p.condition visible
    if morePrompts then Run.log (.promptsIgnored id)
    return choiceWord tristate optional ++ String.join (members.map (" " ++ ·)) ++ "|(" ++
      guard ++ ")"
  | dep name condition => do
    let condition ← p.condition condition
    return "dep " ++ identifier p.namePrefix name ++ " (" ++ condition ++ ")"
  | select selected name visible => do
    let selected ← p.condition selected
    let guard ← p.condition visible
    return "select " ++ selected ++ " " ++ identifier p.namePrefix name ++ " (" ++ guard ++ ")"
  | revDep name condition => do
    let condition ← p.condition condition
    return "rev_dep " ++ identifier p.namePrefix name ++ " (" ++ condition ++ ")"

/-- The line of a record. -/
def line (p : Printer) (r : Record) : Run String := do
  return (← r.text p) ++ "\n"

end Record

end Kconfig
