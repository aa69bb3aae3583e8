import Kconfig.Interchange.Decode
import Kconfig.Model.Validation
import Kconfig.Run

/-!
# Reading models

A model that was read is sound: what is read as a model is then checked, and refused if it refers
to symbols that it does not have.
-/

namespace Kconfig

/-- Why the content of a file is not there. -/
inductive ReadFault where
  /-- The file cannot be opened. -/
  | cannotOpen (cause : String)
  /-- The file is open but has no content, as a directory. -/
  | unreadable

namespace Model

/-- A sound model from what was read as one. -/
def ofRead (read : Option Model) : Except Error Model :=
  match read with
  | none => .error .malformed
  | some m =>
    match m.validate with
    | .ok () => .ok m
    | .error e => .error e

/-- Reads a model from a text. -/
def ofText (text : String) : Except Error Model :=
  ofRead (Interchange.modelOfText? text)

/-- Reads a model from bytes. -/
def ofBytes (bytes : List UInt8) : Except Error Model :=
  ofRead (Interchange.modelOfBytes? bytes)

/-- Reads a model from the content of a file, which there may not be. -/
def ofContent (path : String) : Except ReadFault (List UInt8) → Except Error Model
  | .error (.cannotOpen cause) => .error (.cannotOpen path cause)
  | .error .unreadable => .error .malformed
  | .ok bytes => ofBytes bytes

/-- Reads a model from a file and says so. -/
def load (path : String) (content : Except ReadFault (List UInt8)) : Run Model := do
  Run.log (.loading path)
  match ofContent path content with
  | .error e => Run.fail e
  | .ok m => do
    Run.log (.loaded m.symbols.size)
    return m

end Model

end Kconfig
