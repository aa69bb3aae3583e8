import Kconfig.Constraint.Encoding
import Kconfig.Writer

/-!
# Writing the constraint encoding

The encoding as it goes to a sink: two loops over the symbol table, each of which writes record by
record. The text of a record is complete before any of it is written.
-/

namespace Kconfig

/-- Writes the line of a record. -/
def Record.emit (p : Printer) (r : Record) : Writer Unit := do
  let line ← r.line p
  Writer.write line

namespace Constraint

/-- Writes the declaration of an option, its prompts and its defaults. -/
def emitDeclarations (p : Printer) (s : Symbol) : Writer Unit :=
  s.named.forM fun name =>
    match s.kind.constraintName with
    | none => Writer.log (.untypedSkipped name)
    | some type => do
      Record.emit p (.config name type)
      s.prompts.forM fun prompt => Record.emit p (.prompt name prompt.visible)
      s.defaults.forM fun default =>
        default.expr.forM fun value =>
          Record.emit p (.default name s.kind.isBoolean value default.visible)

/-- Writes the record of a choice. -/
def emitChoice (p : Printer) (id : SymbolId) (s : Symbol) : Writer Unit :=
  if s.kind.isBoolean then
    Record.emit p (.choice id (s.kind = .tristate) (p.model.isOptionalChoice s)
      (p.model.choiceMembers id s) (s.prompts.head?.bind Property.visible) (1 < s.prompts.length))
  else Writer.fail (.invalidChoiceType id s.kind)

/-- Writes what selects the option and what it selects. -/
def emitReverseRules (p : Printer) (name : String) (s : Symbol) : Writer Unit := do
  s.selects.forM fun select => Record.emit p (.select select.expr name select.visible)
  s.revDep.forM fun e => Record.emit p (.revDep name (some e))

/-- Writes the dependencies of an option. -/
def emitDependencies (p : Printer) (settings : Settings) (name : String) (s : Symbol) :
    Writer Unit := do
  s.dirDep.forM fun e => Record.emit p (.dep name (some e))
  Writer.when settings.reverseDependencies (emitReverseRules p name s)
  let depends := s.dirDep.isSome || settings.reverseDependencies && s.revDep.isSome
  Writer.when (s.kind.isNonboolean && !depends) (Record.emit p (.dep name none))

/-- Writes the choice of a symbol, if it is one, and its dependencies, if it is an option. -/
def emitRules (p : Printer) (settings : Settings) (id : SymbolId) (s : Symbol) : Writer Unit := do
  Writer.when s.isChoice (emitChoice p id s)
  s.named.forM fun name => Writer.when (s.kind ≠ .unknown) (emitDependencies p settings name s)

/-- Writes the constraint encoding of a model. -/
def emit (m : Model) (settings : Settings) : Writer Unit := do
  let p : Printer := ⟨m, settings.namePrefix, .logic⟩
  Writer.log (.extracting m.symbols.size)
  m.entries.forM fun (_, s) => emitDeclarations p s
  m.entries.forM fun (id, s) => emitRules p settings id s

end Constraint

end Kconfig
