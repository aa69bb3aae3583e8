import Kconfig.Json.Token

/-!
# Reading JSON documents

The reader is a machine over tokens with a stack of the arrays and objects that are still open, so
that the depth of a document costs no recursion. Its states say what may come next. `parse?` is
strict JSON: one value and nothing after it.
-/

namespace Kconfig.Json

open Kconfig.Text (Glyph)

/-- An array or object that is still open, around the value being read. -/
inductive Frame where
  /-- The items before the value, the latest first. -/
  | items (before : List Json)
  /-- The members before the value, the latest first, and the value's key. -/
  | member (before : List (Spelling × Json)) (key : Spelling)

/-- What a reader has read, and what may come next. -/
inductive Reader where
  /-- A value must come. -/
  | value (frames : List Frame)
  /-- After `[`: a value or the end of the array. -/
  | arrayStart (frames : List Frame)
  /-- After an item: a comma or the end of the array. -/
  | arrayNext (items : List Json) (frames : List Frame)
  /-- After an opening brace: a key or the end of the object. -/
  | objectStart (frames : List Frame)
  /-- After a comma in an object: a key. -/
  | objectKey (members : List (Spelling × Json)) (frames : List Frame)
  /-- After a key: a colon. -/
  | objectColon (members : List (Spelling × Json)) (key : Spelling) (frames : List Frame)
  /-- After a member: a comma or the end of the object. -/
  | objectNext (members : List (Spelling × Json)) (frames : List Frame)
  /-- The document is complete. -/
  | done (document : Json)

namespace Reader

/-- A value is complete: it goes into the innermost open array or object. -/
def close (v : Json) : List Frame → Reader
  | [] => done v
  | .items before :: frames => arrayNext (v :: before) frames
  | .member before key :: frames => objectNext ((key, v) :: before) frames

/-- The first token of a value. -/
def startValue (frames : List Frame) : Token → Option Reader
  | .null => some (close .null frames)
  | .bool b => some (close (.bool b) frames)
  | .number n => some (close (.number n) frames)
  | .string s => some (close (.string s) frames)
  | .openArray => some (arrayStart frames)
  | .openObject => some (objectStart frames)
  | .closeArray | .closeObject | .comma | .colon => none

/-- One token. -/
def step : Reader → Token → Option Reader
  | value frames, t => startValue frames t
  | arrayStart frames, .closeArray => some (close (.array []) frames)
  | arrayStart frames, t => startValue (.items [] :: frames) t
  | arrayNext items frames, .comma => some (value (.items items :: frames))
  | arrayNext items frames, .closeArray => some (close (.array items.reverse) frames)
  | objectStart frames, .closeObject => some (close (.object []) frames)
  | objectStart frames, .string key => some (objectColon [] key frames)
  | objectKey members frames, .string key => some (objectColon members key frames)
  | objectColon members key frames, .colon => some (value (.member members key :: frames))
  | objectNext members frames, .comma => some (objectKey members frames)
  | objectNext members frames, .closeObject => some (close (.object members.reverse) frames)
  | _, _ => none

/-- All the tokens of a document. -/
def run : Reader → List Token → Option Reader
  | reader, [] => some reader
  | reader, t :: tokens =>
    match reader.step t with
    | some reader => reader.run tokens
    | none => none

/-- The document, if the reader has come to its end. -/
def document? : Reader → Option Json
  | done v => some v
  | _ => none

end Reader

/-- Reads a JSON document. -/
def parse? (glyphs : List Glyph) : Option Json := do
  let tokens ← tokens? glyphs
  let reader ← Reader.run (.value []) tokens
  reader.document?

/-- Reads a JSON document from a text. -/
def ofText? (text : String) : Option Json :=
  parse? (text.toList.map some)

/-- Reads a JSON document from bytes. -/
def ofBytes? (bytes : List UInt8) : Option Json :=
  parse? (Text.Utf8.decode bytes)

end Kconfig.Json
