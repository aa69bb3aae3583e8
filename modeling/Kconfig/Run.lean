import Kconfig.Diagnostic
import Kconfig.Error

/-!
# Runs

A run is what the program does, as one value: the events in their order, which are writes and
messages, and how it ends. It ends with a result, with an error, or because something was asked for
that is not there: a symbol that the table does not have, or the sign of an ordering comparison
where a node is none. No sound model leads to that.

A run does not know where it writes to, so none of its writes can fail. What becomes of writes that
can is the affair of writers.
-/

namespace Kconfig

/-- Something that a run does. -/
inductive Event where
  | wrote (text : String)
  | logged (message : Diagnostic)

/-- Why a run ends without a result. -/
inductive Stop where
  | error (error : Error)
  /-- The symbol that was looked up is not in the table. -/
  | outOfTable (id : SymbolId)
  /-- The sign of an ordering comparison was asked for of a node of another kind. -/
  | noOrdering (kind : ExprKind)
deriving DecidableEq

/-- What a computation does and how it ends. -/
structure Run (α : Type) where
  events : List Event
  ending : Except Stop α

namespace Run

variable {α β : Type}

instance : Monad Run where
  pure a := ⟨[], .ok a⟩
  bind r f :=
    match r.ending with
    | .ok a => ⟨r.events ++ (f a).events, (f a).ending⟩
    | .error s => ⟨r.events, .error s⟩

instance : LawfulMonad Run :=
  LawfulMonad.mk' Run
    (by rintro α ⟨events, ending | a⟩ <;> simp [Functor.map])
    (by intros; simp [bind, pure])
    (by
      rintro α β γ ⟨events, ending | a⟩ f g
      · simp [bind]
      · simp only [bind]
        cases (f a).ending <;> simp)

/-- Writes a text. -/
def write (text : String) : Run Unit :=
  ⟨[.wrote text], .ok ()⟩

/-- Says a message. -/
def log (message : Diagnostic) : Run Unit :=
  ⟨[.logged message], .ok ()⟩

/-- Ends without a result. -/
def stop (s : Stop) : Run α :=
  ⟨[], .error s⟩

/-- Ends with an error. -/
def fail (e : Error) : Run α :=
  stop (.error e)

/-- The texts written, one after the other. -/
def output (r : Run α) : String :=
  String.join (r.events.filterMap fun
    | .wrote text => some text
    | .logged _ => none)

/-- The messages, in order. -/
def messages (r : Run α) : List Diagnostic :=
  r.events.filterMap fun
    | .wrote _ => none
    | .logged message => some message

end Run

/-- The bytes of a text. -/
def utf8 (text : String) : List UInt8 :=
  text.toUTF8.data.toList

end Kconfig
