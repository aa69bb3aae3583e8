import Kconfig.Text.Blank
import Kconfig.Text.Hex
import Kconfig.Text.Split

/-!
# Flag words

Symbols and menus carry a 32-bit word of flags. Some bits have names; the others are kept as they
are. As text a word is the names of its bits and, for bits without a name, a hexadecimal number,
joined by ` | `; no bit at all is the empty text.

Reading is more lenient than writing: blanks around each part, any order, repeated names, and any
number of hexadecimal parts.
-/

namespace Kconfig

/-- The named bits of a kind of flag word, in the order in which they are written. -/
abbrev FlagNames := List (String × UInt32)

namespace FlagNames

/-- Every bit that has a name. -/
def known (names : FlagNames) : UInt32 :=
  names.foldr (fun entry bits => entry.2 ||| bits) 0

/-- A hexadecimal word: at least one digit, one `+` allowed before them, and a value below
`2 ^ 32`. -/
def hexWord? (cs : List Char) : Option UInt32 :=
  let digits := match cs with
    | '+' :: rest => rest
    | _ => cs
  match digits with
  | [] => none
  | _ :: _ =>
    match Text.Hex.number? 0 digits with
    | some n => if n < UInt32.size then some (UInt32.ofNat n) else none
    | none => none

/-- One part of a flag text, without the blanks around it: a name of the table, or `0x` and a
hexadecimal word. -/
def part? (names : FlagNames) : List Char → Option UInt32
  | '0' :: 'x' :: digits => hexWord? digits
  | word => names.lookup (String.ofList word)

/-- The bits of all the parts together. -/
def parts? (names : FlagNames) : List (List Char) → Option UInt32
  | [] => some 0
  | word :: rest =>
    match names.part? (Text.trim word) with
    | none => none
    | some bits => (names.parts? rest).map (bits ||| ·)

/-- Reads a flag text. Blank text is the empty word; an empty part among others is an error, since
no flag has an empty name. -/
def read? (names : FlagNames) (text : String) : Option UInt32 :=
  if Text.trim text.toList = [] then some 0
  else names.parts? (Text.splitAt '|' text.toList)

/-- The parts of a word's text: the names whose bits it has, then the rest as a number. -/
def parts (names : FlagNames) (bits : UInt32) : List String :=
  let named := (names.filter fun entry => bits &&& entry.2 = entry.2).map Prod.fst
  let rest := bits &&& ~~~ names.known
  if rest = 0 then named
  else named ++ ["0x" ++ String.ofList (Text.Hex.spell rest.toNat)]

/-- Writes a flag word as text. -/
def write (names : FlagNames) (bits : UInt32) : String :=
  " | ".intercalate (names.parts bits)

end FlagNames

/-- The flags of a symbol. -/
structure SymbolFlags where
  bits : UInt32
deriving DecidableEq

namespace SymbolFlags

/-- A value written in the configuration files and not declared. -/
def constant : SymbolFlags := ⟨0x1⟩
/-- The container of a choice. -/
def choice : SymbolFlags := ⟨0x10⟩
/-- A member of a choice. -/
def choiceValue : SymbolFlags := ⟨0x20⟩
/-- A choice that may have no member set. -/
def optional : SymbolFlags := ⟨0x100⟩
/-- A symbol that the parser made up. -/
def auto : SymbolFlags := ⟨0x1000⟩

/-- No flag. -/
def none : SymbolFlags := ⟨0⟩

/-- The names of a symbol's flags. -/
def names : FlagNames :=
  [("CONST", constant.bits), ("CHOICE", choice.bits), ("CHOICEVAL", choiceValue.bits),
    ("OPTIONAL", optional.bits), ("AUTO", auto.bits)]

/-- Whether every bit of `wanted` is set. -/
def contains (flags wanted : SymbolFlags) : Bool :=
  flags.bits &&& wanted.bits = wanted.bits

/-- The bits of both. -/
def union (flags more : SymbolFlags) : SymbolFlags :=
  ⟨flags.bits ||| more.bits⟩

end SymbolFlags

/-- The flags of a menu. -/
structure MenuFlags where
  bits : UInt32
deriving DecidableEq

namespace MenuFlags

/-- The menu holds a value that was changed. -/
def changed : MenuFlags := ⟨0x1⟩
/-- The top of a menu tree. -/
def root : MenuFlags := ⟨0x2⟩

/-- No flag. -/
def none : MenuFlags := ⟨0⟩

/-- The names of a menu's flags. -/
def names : FlagNames :=
  [("CHANGED", changed.bits), ("ROOT", root.bits)]

/-- Whether every bit of `wanted` is set. -/
def contains (flags wanted : MenuFlags) : Bool :=
  flags.bits &&& wanted.bits = wanted.bits

end MenuFlags

end Kconfig
