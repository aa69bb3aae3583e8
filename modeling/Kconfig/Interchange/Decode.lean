import Kconfig.Interchange.Words
import Kconfig.Json.Reader
import Kconfig.Json.Record

/-!
# Reading models from JSON

A document is read as a model field by field. What is absent has a default, what is not declared
is passed over, and everything that is read must be of its form; one fault anywhere refuses the
document.

Arrays and objects that are read may stand at most 127 deep in each other. The functions below
take the number of arrays and objects that may still be opened, as `room`, and open one for each
step down. What is passed over is not held to that limit, with one exception: an expression is read
as a whole before its operator is known, so everything inside it counts, its unknown fields
included, and must spell texts and finite numbers (`Json.readable`).

The operator of an expression is a word, and a word that is not known makes an `unknown` node. In
the operands of an expression an operator may also be given by its number.
-/

namespace Kconfig.Interchange

open Kconfig.Json (Fields)

/-- How deep arrays and objects that are read may stand in each other. -/
def nestingLimit : Nat := 127

/-- Reads a word, which may also stand as the key of an object whose only value is `null`. -/
def word? {α : Type} (words : Words α) : Json → Option α
  | .string (some word) => words.lookup word
  | .object [(some word, .null)] => words.lookup word
  | _ => none

/-- Reads a text. -/
def text? : Json → Option String
  | .string s => s
  | _ => none

/-- Reads a truth value of the format itself. -/
def bool? : Json → Option Bool
  | .bool b => some b
  | _ => none

/-- Reads a symbol id: a 32-bit number written by its digits alone. -/
def symbolId? : Json → Option SymbolId
  | .number n =>
    match n.toNat? with
    | some k => if k < UInt32.size then some (SymbolId.ofPosition k) else none
    | none => none
  | _ => none

/-- Reads a reference: a truth value or an id. -/
def symbolRef? (j : Json) : Option SymbolRef :=
  match word? tristates j with
  | some t => some (.truth t)
  | none => (symbolId? j).map .entry

/-- Reads the flags of a symbol. -/
def symbolFlags? (j : Json) : Option SymbolFlags :=
  (text? j).bind fun text => (SymbolFlags.names.read? text).map SymbolFlags.mk

/-- Reads the flags of a menu. -/
def menuFlags? (j : Json) : Option MenuFlags :=
  (text? j).bind fun text => (MenuFlags.names.read? text).map MenuFlags.mk

/-- Reads a record, opening the object or array that holds it. -/
def record? (names : List String) : (room : Nat) → Json → Option (Nat × Fields)
  | 0, _ => none
  | room + 1, j => (j.fields? names).map (room, ·)

/-- Reads a list, opening the array that holds it. -/
def list? {α : Type} (read : (room : Nat) → Json → Option α) : (room : Nat) → Json → Option (List α)
  | room + 1, .array items => items.mapM (read room)
  | _, _ => none

/-- Reads an operator. Inside another expression it may be a number below `2 ^ 64`, its place among
the operators. -/
def operator? (nested : Bool) : Json → Option ExprKind
  | .string (some word) => some ((operators.lookup word).getD .unknown)
  | .number n =>
    match n.toNat? with
    | some k =>
      if nested ∧ k < UInt64.size then some ((operators[k]?.map Prod.snd).getD .unknown) else none
    | none => none
  | _ => none

/-- The operator of an expression: its member `op`, or the first item of an array. -/
def operatorOf? (nested : Bool) : Json → Option ExprKind
  | .array (tag :: _) => operator? nested tag
  | .object members => (members.lookup (some "op")).bind (operator? nested)
  | _ => none

/-- Reads an expression and all its operands. -/
def operands? : (room : Nat) → (nested : Bool) → Json → Option Expr
  | 0, _, _ => none
  | room + 1, nested, j => do
    let kind ← operatorOf? nested j
    let fields ← j.fields? ("op" :: operandFields kind)
    match kind with
    | .symbol => return .symbol (← fields.required "sym" symbolRef?)
    | .not => return .not (← fields.required "expr" (operands? room true))
    | .comparison op =>
      return .compare op (← fields.required "left" symbolRef?) (← fields.required "right" symbolRef?)
    | .and =>
      return .and (← fields.required "left" (operands? room true))
        (← fields.required "right" (operands? room true))
    | .or =>
      return .or (← fields.required "left" (operands? room true))
        (← fields.required "right" (operands? room true))
    | .list =>
      let member ← fields.required "sym" symbolRef?
      match ← fields.optional "next" (operands? room true) with
      | none => return .listLast member
      | some rest => return .listCons member rest
    | .range =>
      return .range (← fields.required "low" symbolRef?) (← fields.required "high" symbolRef?)
    | .unknown => return .unknown

/-- Reads an expression. -/
def expr? (room : Nat) (j : Json) : Option Expr :=
  if j.readable room then operands? room false j else none

/-- Reads a property. -/
def property? (room : Nat) (j : Json) : Option Property := do
  let (room, fields) ← record? propertyFields room j
  return {
    kind := ← fields.required "type" (word? propertyKinds)
    text := ← fields.optional "text" text?
    expr := ← fields.optional "expr" (expr? room)
    visible := ← fields.optional "visible" (expr? room) }

/-- Reads a symbol. -/
def symbol? (room : Nat) (j : Json) : Option Symbol := do
  let (room, fields) ← record? symbolFields room j
  return {
    name := ← fields.optional "name" text?
    kind := ← fields.getD "type" (word? symbolKinds) .unknown
    flags := ← fields.getD "flags" symbolFlags? .none
    properties := ← fields.getD "properties" (list? property? room) []
    revDep := ← fields.optional "rev_dep" (expr? room)
    dirDep := ← fields.optional "dir_dep" (expr? room) }

/-- Reads a menu and all its descendants. -/
def menu? : (room : Nat) → Json → Option Menu
  | 0, _ => none
  | room + 1, j => do
    let fields ← j.fields? menuFields
    return {
      flags := ← fields.getD "flags" menuFlags? .none
      symbol := ← fields.optional "symbol" symbolId?
      dep := ← fields.optional "dep" (expr? room)
      choiceMembers := ← fields.getD "choice_members" (list? (fun _ => symbolId?) room) []
      children := ← match fields.lookup "children" with
        | none => some []
        | some (.array items) =>
          match room with
          | 0 => none
          | room + 1 => items.mapM (menu? room)
        | some _ => none }

/-- Reads capabilities. -/
def capabilities? (room : Nat) (j : Json) : Option Capabilities := do
  let (_, fields) ← record? capabilityFields room j
  return {
    choiceMembers := ← fields.getD "choice_members" (word? choiceShapes) .property
    optionalChoices := ← fields.getD "optional_choices" bool? true }

/-- Reads a model. -/
def model? (room : Nat) (j : Json) : Option Model := do
  let (room, fields) ← record? modelFields room j
  let capabilities ← fields.getD "capabilities" (capabilities? room) {}
  let symbols ← fields.getD "symbols" (list? symbol? room) []
  let root ← fields.getD "root" (menu? room) {}
  let model ← Model.ofSymbols? symbols.toArray
  return (model.withCapabilities capabilities).withRoot root

/-- Reads an expression from a text. -/
def exprOfText? (text : String) : Option Expr :=
  (Json.ofText? text).bind (expr? nestingLimit)

/-- Reads capabilities from a text. -/
def capabilitiesOfText? (text : String) : Option Capabilities :=
  (Json.ofText? text).bind (capabilities? nestingLimit)

/-- Reads a model from a text. -/
def modelOfText? (text : String) : Option Model :=
  (Json.ofText? text).bind (model? nestingLimit)

/-- Reads a model from bytes. -/
def modelOfBytes? (bytes : List UInt8) : Option Model :=
  (Json.ofBytes? bytes).bind (model? nestingLimit)

end Kconfig.Interchange
