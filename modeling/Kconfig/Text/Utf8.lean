/-!
# Characters of a byte sequence

Bytes that come from outside need not be UTF-8. `decode` reads them as far as they are and marks
the rest: a `Glyph` is a character or the mark of a byte that belongs to none. A marked byte
matters only where the text around it is used, so it is no error here.

The machine takes one byte at a time. Between characters it expects a first byte, which says how
many more bytes the character has and in which range the next one lies; the ranges are those of
the Unicode standard's table of well-formed sequences, which rule out overlong forms, surrogates
and numbers beyond the last code point. A byte out of range marks the unfinished character and is
then looked at afresh.
-/

namespace Kconfig.Text

/-- A character, or the mark of bytes that are none. -/
abbrev Glyph := Option Char

namespace Utf8

/-- Where the machine stands between two bytes. -/
inductive State where
  /-- Between characters. -/
  | start
  /-- Inside a character: the bytes owed after the next, the number read so far, and the least and
  the greatest value of the next byte. -/
  | inside (owed : Nat) (value : Nat) (low high : Nat)

/-- A first byte: the state after it, or the character or mark that it is. -/
def first (b : Nat) : State × List Glyph :=
  if b ≤ 0x7F then (.start, [some (Char.ofNat b)])
  else if b < 0xC2 then (.start, [none])
  else if b ≤ 0xDF then (.inside 0 (b - 0xC0) 0x80 0xBF, [])
  else if b = 0xE0 then (.inside 1 0 0xA0 0xBF, [])
  else if b = 0xED then (.inside 1 (b - 0xE0) 0x80 0x9F, [])
  else if b ≤ 0xEF then (.inside 1 (b - 0xE0) 0x80 0xBF, [])
  else if b = 0xF0 then (.inside 2 0 0x90 0xBF, [])
  else if b ≤ 0xF3 then (.inside 2 (b - 0xF0) 0x80 0xBF, [])
  else if b = 0xF4 then (.inside 2 (b - 0xF0) 0x80 0x8F, [])
  else (.start, [none])

/-- One byte: the state after it and what it completes, in reverse. -/
def step : State → Nat → State × List Glyph
  | .start, b => first b
  | .inside owed value low high, b =>
    if low ≤ b ∧ b ≤ high then
      let value := 64 * value + (b - 0x80)
      match owed with
      | 0 => (.start, [some (Char.ofNat value)])
      | owed + 1 => (.inside owed value 0x80 0xBF, [])
    else
      let (state, glyphs) := first b
      (state, glyphs ++ [none])

/-- The glyphs of the bytes still to come after those of `done`, the latest of which stands
first. -/
def decodeAfter (done : List Glyph) : State → List UInt8 → List Glyph
  | .start, [] => done.reverse
  | .inside .., [] => (none :: done).reverse
  | state, b :: bytes =>
    let (state, glyphs) := step state b.toNat
    decodeAfter (glyphs ++ done) state bytes

/-- The glyphs of a byte sequence. -/
def decode (bytes : List UInt8) : List Glyph :=
  decodeAfter [] .start bytes

end Utf8

end Kconfig.Text
