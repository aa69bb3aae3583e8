import Kconfig.Sink

/-!
# Writers

A writer writes to a sink. After each text it learns whether the sink took all of it
(`Writer.offer`), and what it makes of a refusal is its own affair. The writers of this library end
with the first refusal, as the error that it is (`Writer.write`).

The texts that a writer writes are put together by runs that know no sink (`Writer.ofRun`).
-/

namespace Kconfig

/-- How far a writer has come: what it offered to its sink and what it said, the latest first. -/
structure Outlet where
  past : List Offer := []
  messages : List Diagnostic := []

/-- A computation that writes to a sink, offer by offer. -/
abbrev Writer : Type → Type :=
  ReaderT Sink (ExceptT Stop (StateM Outlet))

/-- What comes of a writer and a sink. -/
structure Delivery where
  /-- The bytes that the sink took. -/
  bytes : List UInt8
  messages : List Diagnostic
  ending : Except Stop Unit

namespace Writer

variable {α : Type}

/-- Offers a text to the sink, and learns whether it took all of it. -/
def offer (text : String) : Writer (Except String Unit) := do
  let sink ← read
  let outlet ← get
  let (past, answer) := sink.offerAll outlet.past (utf8 text)
  set { outlet with past }
  return answer

/-- Writes a text. If the sink refuses, that is an error and the writer ends. -/
def write (text : String) : Writer Unit := do
  match ← offer text with
  | .ok () => return ()
  | .error cause => throw (.error (.io cause))

/-- Says a message. -/
def log (message : Diagnostic) : Writer Unit :=
  modify fun outlet => { outlet with messages := message :: outlet.messages }

/-- Ends with an error. -/
def fail (e : Error) : Writer α :=
  throw (.error e)

/-- Does something under a condition. -/
def when (c : Prop) [Decidable c] (w : Writer Unit) : Writer Unit :=
  if c then w else return ()

/-- Does one thing that a run does. -/
def ofEvent : Event → Writer Unit
  | .wrote text => write text
  | .logged message => log message

/-- Does what a run does and ends as it ends. -/
def ofRun (r : Run α) : Writer α := do
  r.events.forM ofEvent
  match r.ending with
  | .ok a => return a
  | .error reason => throw reason

instance : MonadLift Run Writer where
  monadLift := ofRun

/-- How a writer ends and how far it has come then, from where it begins. -/
def exec (w : Writer α) (sink : Sink) (outlet : Outlet) : Except Stop α × Outlet :=
  (w sink).run outlet

/-- Sends what a writer writes to a sink. -/
def deliver (w : Writer Unit) (sink : Sink) : Delivery :=
  let (ending, outlet) := w.exec sink {}
  ⟨Sink.content outlet.past, outlet.messages.reverse, ending⟩

end Writer

/-- Sends the writes of a run to a sink. -/
def Run.deliverTo (r : Run Unit) (sink : Sink) : Delivery :=
  (Writer.ofRun r).deliver sink

end Kconfig
