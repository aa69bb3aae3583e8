/-!
# Settings

What a user chooses for a run. Every output reads the same settings and nothing changes them
while it is written.
-/

namespace Kconfig

/-- How much a message matters. -/
inductive Level where
  /-- What the program is doing. -/
  | debug
  /-- What the program has done. -/
  | info
  /-- What the program could not do as asked. -/
  | warn
deriving DecidableEq

/-- The word for a level in a log. -/
def Level.label : Level → String
  | debug => "DEBUG"
  | info => "INFO"
  | warn => "WARN"

/-- The settings of a run. -/
structure Settings where
  /-- What stands in front of every name in constraints. -/
  namePrefix : String := "CONFIG_"
  /-- Whether constraints say what selects a symbol. -/
  reverseDependencies : Bool := true
  /-- Whether messages of the lowest level are shown. -/
  verbose : Bool := false
  /-- Names that the listing of defaults leaves out, in the order given. -/
  forceOff : List String := []

namespace Settings

/-- Whether the listing of defaults leaves a name out. -/
def isForcedOff (s : Settings) (name : String) : Bool :=
  s.forceOff.contains name

/-- The lowest level of messages that is shown. -/
def threshold (s : Settings) : Level :=
  if s.verbose then .debug else .info

/-- Whether messages of a level are shown. -/
def shows (s : Settings) : Level → Bool
  | .debug => s.verbose
  | .info | .warn => true

/-- Has constraints say what selects a symbol, or not. -/
def withReverse (s : Settings) (on : Bool) : Settings :=
  { s with reverseDependencies := on }

/-- Leaves out more names, after the others. -/
def withForceOff (s : Settings) (names : List String) : Settings :=
  { s with forceOff := s.forceOff ++ names }

end Settings

end Kconfig
