import Kconfig.Json.Basic
import Kconfig.Text.Hex
import Kconfig.Text.Utf8

/-!
# JSON tokens

The lexer is a machine over glyphs. It stands between tokens or inside one, takes one glyph at a
time, and keeps the tokens that are complete. Only the form of a token is judged here: an escape
must be one of the language, control characters must be escaped, numbers follow the grammar of
numbers. What a string spells is worked out on the way, and a string that spells no text is a
token all the same.

Two tokens may stand side by side without a blank. Where that is no JSON, as in `01` or `truefalse`,
the reader of tokens refuses it.
-/

namespace Kconfig.Json

open Kconfig.Text (Glyph)

/-- A token of a JSON document. -/
inductive Token where
  | openArray
  | closeArray
  | openObject
  | closeObject
  | comma
  | colon
  | null
  | bool (value : Bool)
  | number (value : Numeral)
  | string (value : Spelling)

/-- A string literal as far as it is read. -/
structure Draft where
  /-- The characters so far, the latest first. -/
  chars : List Char := []
  /-- Whether what was read so far spells a text. -/
  sound : Bool := true
  /-- The first half of a surrogate pair, if the second must come next. -/
  half : Option Nat := none

namespace Draft

/-- A character of the text. After half of a pair it leaves that half alone. -/
def push (d : Draft) (c : Char) : Draft :=
  { chars := c :: d.chars, sound := d.sound && d.half.isNone, half := none }

/-- Something that is no character. -/
def spoil (d : Draft) : Draft :=
  { d with sound := false, half := none }

/-- A 16-bit unit: a character, or half of a surrogate pair. -/
def pushUnit (d : Draft) (n : Nat) : Draft :=
  match d.half with
  | some high =>
    if 0xDC00 ≤ n ∧ n ≤ 0xDFFF then
      { d with chars := Char.ofNat (0x10000 + (high - 0xD800) * 0x400 + (n - 0xDC00)) :: d.chars,
               half := none }
    else d.spoil
  | none =>
    if 0xD800 ≤ n ∧ n ≤ 0xDBFF then { d with half := some n }
    else if 0xDC00 ≤ n ∧ n ≤ 0xDFFF then d.spoil
    else d.push (Char.ofNat n)

/-- What the literal spells once it is closed. -/
def spelling (d : Draft) : Spelling :=
  if d.sound && d.half.isNone then some (String.ofList d.chars.reverse) else none

end Draft

/-- How far a number literal is read. -/
inductive NumberPhase where
  /-- After the sign: a digit must follow. -/
  | sign
  /-- After a leading zero, which no digit may follow. -/
  | zero
  /-- Among the digits before the point. -/
  | whole
  /-- After the point: a digit must follow. -/
  | point
  /-- Among the digits after the point. -/
  | fraction
  /-- After the exponent's letter: a sign or a digit must follow. -/
  | letter
  /-- After the exponent's sign: a digit must follow. -/
  | exponentSign
  /-- Among the digits of the exponent. -/
  | exponent
deriving DecidableEq

/-- Where the lexer stands. -/
inductive Mode where
  /-- Between tokens. -/
  | between
  /-- Inside the word of a token: the character that must come next, and those due after it. -/
  | word (next : Char) (due : List Char) (token : Token)
  /-- Inside a string. -/
  | string (draft : Draft)
  /-- After a backslash in a string. -/
  | escape (draft : Draft)
  /-- Inside the four digits of an escaped unit: how many are due, and what the others make. -/
  | unit (draft : Draft) (due : Nat) (value : Nat)
  /-- Inside a number. -/
  | number (phase : NumberPhase) (value : Numeral)

/-- The state of the lexer. -/
structure Lexer where
  mode : Mode := .between
  /-- The complete tokens, the latest first. -/
  tokens : List Token := []

namespace Lexer

/-- A character between tokens: blank, a token of its own, or the start of one. -/
def start (tokens : List Token) (c : Char) : Option Lexer :=
  match c with
  | ' ' | '\t' | '\n' | '\r' => some ⟨.between, tokens⟩
  | '[' => some ⟨.between, .openArray :: tokens⟩
  | ']' => some ⟨.between, .closeArray :: tokens⟩
  | '\x7b' => some ⟨.between, .openObject :: tokens⟩
  | '\x7d' => some ⟨.between, .closeObject :: tokens⟩
  | ',' => some ⟨.between, .comma :: tokens⟩
  | ':' => some ⟨.between, .colon :: tokens⟩
  | '"' => some ⟨.string {}, tokens⟩
  | 'n' => some ⟨.word 'u' ['l', 'l'] .null, tokens⟩
  | 't' => some ⟨.word 'r' ['u', 'e'] (.bool true), tokens⟩
  | 'f' => some ⟨.word 'a' ['l', 's', 'e'] (.bool false), tokens⟩
  | '-' => some ⟨.number .sign { negative := true, whole := [] }, tokens⟩
  | '0' => some ⟨.number .zero { whole := ['0'] }, tokens⟩
  | c => if c.isDigit then some ⟨.number .whole { whole := [c] }, tokens⟩ else none

/-- The number with one more digit of its fraction. -/
def withFractionDigit (n : Numeral) (c : Char) : Numeral :=
  { n with fraction := some (c :: n.fraction.getD []) }

/-- The number with one more digit of its exponent. -/
def withExponentDigit (n : Numeral) (c : Char) : Numeral :=
  match n.exponent with
  | some (negative, digits) => { n with exponent := some (negative, c :: digits) }
  | none => { n with exponent := some (false, [c]) }

/-- A character that goes on with a number: the phase and the number with it. -/
def extend? (phase : NumberPhase) (n : Numeral) (c : Char) : Option (NumberPhase × Numeral) :=
  match phase with
  | .sign =>
    if c = '0' then some (.zero, { n with whole := [c] })
    else if c.isDigit then some (.whole, { n with whole := [c] }) else none
  | .zero =>
    if c = '.' then some (.point, n)
    else if c = 'e' ∨ c = 'E' then some (.letter, n) else none
  | .whole =>
    if c.isDigit then some (.whole, { n with whole := c :: n.whole })
    else if c = '.' then some (.point, n)
    else if c = 'e' ∨ c = 'E' then some (.letter, n) else none
  | .point => if c.isDigit then some (.fraction, withFractionDigit n c) else none
  | .fraction =>
    if c.isDigit then some (.fraction, withFractionDigit n c)
    else if c = 'e' ∨ c = 'E' then some (.letter, n) else none
  | .letter =>
    if c = '+' then some (.exponentSign, { n with exponent := some (false, []) })
    else if c = '-' then some (.exponentSign, { n with exponent := some (true, []) })
    else if c.isDigit then some (.exponent, withExponentDigit n c) else none
  | .exponentSign | .exponent =>
    if c.isDigit then some (.exponent, withExponentDigit n c) else none

/-- Whether a number may end where it is. -/
def mayEnd : NumberPhase → Bool
  | .zero | .whole | .fraction | .exponent => true
  | .sign | .point | .letter | .exponentSign => false

/-- A character inside a string. -/
def inString (tokens : List Token) (d : Draft) : Glyph → Option Lexer
  | none => some ⟨.string d.spoil, tokens⟩
  | some '"' => some ⟨.between, .string d.spelling :: tokens⟩
  | some '\\' => some ⟨.escape d, tokens⟩
  | some c => if c.toNat < 0x20 then none else some ⟨.string (d.push c), tokens⟩

/-- A character after a backslash. -/
def inEscape (tokens : List Token) (d : Draft) : Char → Option Lexer
  | '"' => some ⟨.string (d.push '"'), tokens⟩
  | '\\' => some ⟨.string (d.push '\\'), tokens⟩
  | '/' => some ⟨.string (d.push '/'), tokens⟩
  | 'b' => some ⟨.string (d.push '\x08'), tokens⟩
  | 'f' => some ⟨.string (d.push '\x0c'), tokens⟩
  | 'n' => some ⟨.string (d.push '\n'), tokens⟩
  | 'r' => some ⟨.string (d.push '\r'), tokens⟩
  | 't' => some ⟨.string (d.push '\t'), tokens⟩
  | 'u' => some ⟨.unit d 4 0, tokens⟩
  | _ => none

/-- A digit of an escaped unit. -/
def inUnit (tokens : List Token) (d : Draft) (due value : Nat) (c : Char) : Option Lexer :=
  match Text.Hex.digit? c with
  | none => none
  | some digit =>
    let value := 16 * value + digit
    if due ≤ 1 then some ⟨.string (d.pushUnit value), tokens⟩
    else some ⟨.unit d (due - 1) value, tokens⟩

/-- One glyph. Outside strings, bytes that are no characters are no JSON. -/
def step : Lexer → Glyph → Option Lexer
  | ⟨.string d, tokens⟩, g => inString tokens d g
  | _, none => none
  | ⟨.between, tokens⟩, some c => start tokens c
  | ⟨.word next due token, tokens⟩, some c =>
    if c = next then
      match due with
      | [] => some ⟨.between, token :: tokens⟩
      | next :: due => some ⟨.word next due token, tokens⟩
    else none
  | ⟨.escape d, tokens⟩, some c => inEscape tokens d c
  | ⟨.unit d due value, tokens⟩, some c => inUnit tokens d due value c
  | ⟨.number phase n, tokens⟩, some c =>
    match extend? phase n c with
    | some (phase, n) => some ⟨.number phase n, tokens⟩
    | none => if mayEnd phase then start (.number n :: tokens) c else none

/-- All the glyphs of a document. -/
def run : Lexer → List Glyph → Option Lexer
  | lexer, [] => some lexer
  | lexer, g :: glyphs =>
    match lexer.step g with
    | some lexer => lexer.run glyphs
    | none => none

/-- The tokens at the end of the document, in order. -/
def finish : Lexer → Option (List Token)
  | ⟨.between, tokens⟩ => some tokens.reverse
  | ⟨.number phase n, tokens⟩ => if mayEnd phase then some (.number n :: tokens).reverse else none
  | _ => none

end Lexer

/-- The tokens of a document. -/
def tokens? (glyphs : List Glyph) : Option (List Token) :=
  match Lexer.run {} glyphs with
  | some lexer => lexer.finish
  | none => none

end Kconfig.Json
