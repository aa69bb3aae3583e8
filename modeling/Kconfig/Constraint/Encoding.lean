import Kconfig.Constraint.Record
import Kconfig.Step

/-!
# The constraint encoding of a model

The encoding goes through the symbol table twice. First every option is declared, with its prompts
and defaults; then come the choices and the dependencies. What is written for a symbol depends on
that symbol alone, on the capabilities and, where choices list their members in menus, on the
menus (`declarations`, `rules`). Expressions are put into text as their records are written.

An option whose value is a number or a text always gets a dependency, if need be one that always
holds, since only dependencies tell which values can be set.
-/

namespace Kconfig.Constraint

/-- The first pass for a symbol: its declaration, prompts and defaults with a value. Only named
symbols with a type are options. -/
def declarations (s : Symbol) : List (Step Record) :=
  match s.named with
  | none => []
  | some name =>
    match s.kind.constraintName with
    | none => [.note (.untypedSkipped name)]
    | some type =>
      .write (.config name type) ::
        (s.prompts.map fun p => .write (.prompt name p.visible)) ++
        s.defaults.filterMap fun p =>
          p.expr.map fun value => .write (.default name s.kind.isBoolean value p.visible)

/-- The record of a choice, or the end of the encoding where the choice has a type that choices
cannot have. -/
def choiceRule (m : Model) (id : SymbolId) (s : Symbol) : Step Record :=
  if s.kind.isBoolean then
    .write (.choice id (s.kind = .tristate) (m.isOptionalChoice s) (m.choiceMembers id s)
      (s.prompts.head?.bind Property.visible) (1 < s.prompts.length))
  else .stop (.error (.invalidChoiceType id s.kind))

/-- What selects the option and what it selects. -/
def reverseRules (name : String) (s : Symbol) : List (Step Record) :=
  (s.selects.map fun p => .write (.select p.expr name p.visible)) ++
    match s.revDep with
    | some e => [.write (.revDep name (some e))]
    | none => []

/-- The dependencies of an option. -/
def dependencies (settings : Settings) (name : String) (s : Symbol) : List (Step Record) :=
  let direct := match s.dirDep with
    | some e => [.write (.dep name (some e))]
    | none => []
  let reverse := if settings.reverseDependencies then reverseRules name s else []
  let depends := s.dirDep.isSome || settings.reverseDependencies && s.revDep.isSome
  direct ++ reverse ++
    if s.kind.isNonboolean && !depends then [.write (.dep name none)] else []

/-- The second pass for a symbol: its choice, if it is one, and its dependencies, if it is an
option. -/
def rules (m : Model) (settings : Settings) (id : SymbolId) (s : Symbol) : List (Step Record) :=
  (if s.isChoice then [choiceRule m id s] else []) ++
    match s.named with
    | none => []
    | some name => if s.kind = .unknown then [] else dependencies settings name s

/-- The whole encoding. -/
def encoding (m : Model) (settings : Settings) : List (Step Record) :=
  .note (.extracting m.symbols.size) ::
    (m.entries.flatMap fun (_, s) => declarations s) ++
    m.entries.flatMap fun (id, s) => rules m settings id s

/-- Writes the constraint encoding of a model. -/
def extract (m : Model) (settings : Settings) : Run Unit :=
  Step.runAll (Record.line ⟨m, settings.namePrefix, .logic⟩) (encoding m settings)

end Kconfig.Constraint
