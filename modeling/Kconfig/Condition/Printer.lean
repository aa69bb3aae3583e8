import Kconfig.Condition.Class
import Kconfig.Condition.Layout

/-!
# Writing conditions

The text of a condition is the texts of its tokens, one after the other. Symbols are looked up in
the order in which they are written, and a token that stands for what cannot be said is written as
`1` and reported, also in that order.
-/

namespace Kconfig

/-- What the text of a condition depends on, beside the condition. -/
structure Printer where
  model : Model
  namePrefix : String
  dialect : Dialect

namespace Dialect

/-- A negation as it is written. -/
def notText : Dialect → String
  | boolean => "!"
  | logic => " not "

/-- A conjunction as it is written. -/
def andText : Dialect → String
  | boolean => " && "
  | logic => " and "

/-- A disjunction as it is written. -/
def orText : Dialect → String
  | boolean => " || "
  | logic => " or "

end Dialect

/-- A comparison as it is written. -/
def Comparison.text : Comparison → String
  | equal => "=="
  | unequal => "!="
  | less => " < "
  | lessEqual => " <= "
  | greater => " > "
  | greaterEqual => " >= "

/-- The sign of an ordering comparison. Nodes of other kinds have none. -/
def orderingText (kind : ExprKind) : Run String :=
  match kind with
  | .comparison op => if op.isOrdering then return op.text else Run.stop (.noOrdering kind)
  | _ => Run.stop (.noOrdering kind)

namespace Printer

/-- What a reference stands for, as it is written in a role. The boolean dialect knows no values
but truth values. -/
def className (p : Printer) (role : Role) : SymbolClass → String
  | .truth true => "1"
  | .truth false => "0"
  | .value name =>
    match p.dialect with
    | .boolean => "0"
    | .logic => "\"" ++ name ++ "\""
  | .option name =>
    match p.dialect, role with
    | .boolean, .test => "(defined " ++ identifier p.namePrefix name ++ ")"
    | _, _ => identifier p.namePrefix name

/-- A reference as it is written in a role. -/
def symbol (p : Printer) (role : Role) (sym : SymbolRef) : Run String := do
  return p.className role (← p.model.classify sym)

/-- A token as it is written. -/
def token (p : Printer) : Token → Run String
  | .operand role sym => p.symbol role sym
  | .unsaid op => do
    Run.log (.comparisonReplaced op)
    return "1"
  | .unknown => do
    Run.log .unknownReplaced
    return "1"
  | .openParen => return "("
  | .closeParen => return ")"
  | .not => return p.dialect.notText
  | .and => return p.dialect.andText
  | .or => return p.dialect.orText
  | .compare op => return op.text
  | .ordering kind => orderingText kind
  | .gap => return " "
  | .caret => return "^ "
  | .openRange => return "["
  | .rangeGap => return " "
  | .closeRange => return "]"

/-- An expression as it is written under a node of the kind `enclosing`, if there is one. -/
def render (p : Printer) (enclosing : Option ExprKind) (e : Expr) : Run String := do
  return String.join (← (p.dialect.layout enclosing e).mapM p.token)

/-- A condition as it is written. One that is absent always holds. -/
def condition (p : Printer) : Option Expr → Run String
  | none => return "1"
  | some e => p.render none e

end Printer

end Kconfig
