import Kconfig.Run

/-!
# Sinks

A sink is what bytes are written to. It is offered bytes and takes the first of them, as many as it
likes, or refuses with a cause; how it answers may depend on everything that it was offered before.
Whoever has more to write than a sink took offers it the rest (`Sink.offerAll`).

A sink may also ask for the same offer again, because it was interrupted. Then its answer here is
the one that it gives in the end.
-/

namespace Kconfig

/-- Bytes that a sink was offered, and how many of them it took. -/
structure Offer where
  bytes : List UInt8
  taken : Fin (bytes.length + 1)

/-- The answer to an offer, in view of the offers before, the latest of which stands first: how many
of the bytes are taken, or why none is. -/
def Sink : Type :=
  (past : List Offer) → (bytes : List UInt8) → Except String (Fin (bytes.length + 1))

namespace Sink

/-- The bytes that were taken of all that was offered. -/
def content (past : List Offer) : List UInt8 :=
  past.reverse.flatMap fun o => o.bytes.take o.taken

/-- How many they are. -/
def load (past : List Offer) : Nat :=
  past.foldr (fun o taken => taken + o.taken) 0

/-- The sink that takes everything. -/
def unlimited : Sink := fun _ bytes =>
  .ok (Fin.last bytes.length)

/-- The sink that takes `room` bytes in all and then fails. -/
def limited (room : Nat) : Sink := fun past bytes =>
  let left := room - load past
  if left = 0 then .error "sink full" else .ok ⟨min left bytes.length, by omega⟩

/-- Offers bytes until all of them are taken, after the offers of `past`. It gives up where the sink
refuses, and where the sink takes nothing. -/
def offerAll (sink : Sink) (past : List Offer) (bytes : List UInt8) :
    List Offer × Except String Unit :=
  if bytes = [] then (past, .ok ())
  else
    match sink past bytes with
    | .error cause => (⟨bytes, 0⟩ :: past, .error cause)
    | .ok n =>
      if n.val = 0 then (⟨bytes, 0⟩ :: past, .error "failed to write whole buffer")
      else offerAll sink (⟨bytes, n⟩ :: past) (bytes.drop n)
termination_by bytes.length
decreasing_by
  rename_i hbytes _
  have := List.length_pos_iff.mpr hbytes
  simp only [List.length_drop]
  omega

end Sink

end Kconfig
