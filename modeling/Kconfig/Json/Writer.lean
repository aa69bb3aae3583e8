import Kconfig.Json.Basic
import Kconfig.Text.Hex

/-!
# Writing JSON documents

The compact form: no blanks, members in their order. In strings the quote, the backslash and the
control characters are escaped, the latter by their letter where they have one; every other
character stands for itself.

Each function writes in front of the text that follows, so that writing takes time linear in what
is written.
-/

namespace Kconfig.Json

/-- A character as it stands in a string literal. -/
def escape (c : Char) : List Char :=
  match c with
  | '"' => ['\\', '"']
  | '\\' => ['\\', '\\']
  | '\x08' => ['\\', 'b']
  | '\x0c' => ['\\', 'f']
  | '\n' => ['\\', 'n']
  | '\r' => ['\\', 'r']
  | '\t' => ['\\', 't']
  | c =>
    if c.toNat < 0x10 then ['\\', 'u', '0', '0', '0'] ++ Text.Hex.spell c.toNat
    else if c.toNat < 0x20 then ['\\', 'u', '0', '0'] ++ Text.Hex.spell c.toNat
    else [c]

/-- A string literal, in front of what follows. One that spells no text is written empty. -/
def quoteOnto (s : Spelling) (rest : List Char) : List Char :=
  '"' :: (s.getD "").toList.foldr (fun c tail => escape c ++ tail) ('"' :: rest)

mutual

/-- A document, in front of what follows. -/
def writeOnto : Json → List Char → List Char
  | .null, rest => 'n' :: 'u' :: 'l' :: 'l' :: rest
  | .bool true, rest => 't' :: 'r' :: 'u' :: 'e' :: rest
  | .bool false, rest => 'f' :: 'a' :: 'l' :: 's' :: 'e' :: rest
  | .number n, rest => n.spell ++ rest
  | .string s, rest => quoteOnto s rest
  | .array [], rest => '[' :: ']' :: rest
  | .array (item :: items), rest => '[' :: writeOnto item (writeItemsOnto items rest)
  | .object [], rest => '\x7b' :: '\x7d' :: rest
  | .object ((key, value) :: members), rest =>
    '\x7b' :: quoteOnto key (':' :: writeOnto value (writeMembersOnto members rest))

/-- The further items of an array and its end, in front of what follows. -/
def writeItemsOnto : List Json → List Char → List Char
  | [], rest => ']' :: rest
  | item :: items, rest => ',' :: writeOnto item (writeItemsOnto items rest)

/-- The further members of an object and its end, in front of what follows. -/
def writeMembersOnto : List (Spelling × Json) → List Char → List Char
  | [], rest => '\x7d' :: rest
  | (key, value) :: members, rest =>
    ',' :: quoteOnto key (':' :: writeOnto value (writeMembersOnto members rest))

end

/-- The compact text of a document. -/
def write (document : Json) : String :=
  String.ofList (writeOnto document [])

end Kconfig.Json
