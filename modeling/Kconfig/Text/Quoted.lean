import Kconfig.Text.Hex
import Kconfig.Text.Unseen

/-!
# Texts in messages

A message that mentions a text from outside shows it in quotes, with every character that would
not be seen as itself escaped.
-/

namespace Kconfig.Text

/-- A character as a quoted text shows it. -/
def quoteChar (c : Char) : List Char :=
  match c with
  | '\x00' => ['\\', '0']
  | '\t' => ['\\', 't']
  | '\r' => ['\\', 'r']
  | '\n' => ['\\', 'n']
  | '"' => ['\\', '"']
  | '\\' => ['\\', '\\']
  | c =>
    if isUnseen c then ['\\', 'u', '\x7b'] ++ Hex.spell c.toNat ++ ['\x7d']
    else [c]

/-- A text in quotes. -/
def quoted (s : String) : String :=
  String.ofList ('"' :: s.toList.flatMap quoteChar ++ ['"'])

end Kconfig.Text
