import Kconfig.Proofs.Run.Orderly
import Kconfig.Proofs.Run.Plan
import Kconfig.Writer

/-!
# Writers that do what runs do

A run knows no sink. `Writer.ofRun` is the writer that does the same, and it goes step by step as the
run goes, whatever its sink does: results, messages, writes and failures one for one, and one part
after the other (`Writer.ofRun_bind`). So a writer that is put together as a run is does what the
run does, as long as it does not make anything else of a refusal than its end.

Into any sink, such a writer ends as the run ends or because the sink refused
(`Run.deliverTo_ending`).
-/

namespace Kconfig

variable {α β : Type}

namespace Writer

/-! ## How far a writer comes -/

/-- A message is added to those before. -/
@[simp] theorem exec_log (message : Diagnostic) (sink : Sink) (outlet : Outlet) :
    (log message).exec sink outlet =
      (.ok (), { outlet with messages := message :: outlet.messages }) := rfl

/-- What comes after a result goes on from there, and nothing comes after a failure. -/
theorem exec_bind (w : Writer α) (f : α → Writer β) (sink : Sink) (outlet : Outlet) :
    (w >>= f).exec sink outlet =
      match w.exec sink outlet with
      | (.ok a, outlet') => (f a).exec sink outlet'
      | (.error reason, outlet') => (.error reason, outlet') := by
  have hcont : (w >>= f).exec sink outlet =
      ExceptT.bindCont (fun a => f a sink) (w.exec sink outlet).1 (w.exec sink outlet).2 := rfl
  rw [hcont]
  rcases w.exec sink outlet with ⟨reason | a, outlet'⟩ <;> rfl

/-- Of an offer comes the answer of the sink, whatever it is. -/
theorem exec_offer (text : String) (sink : Sink) (outlet : Outlet) :
    (offer text).exec sink outlet =
      (.ok (sink.offerAll outlet.past (utf8 text)).2,
        { outlet with past := (sink.offerAll outlet.past (utf8 text)).1 }) := rfl

/-- A text is offered to the sink, and a refusal is an error. -/
theorem exec_write (text : String) (sink : Sink) (outlet : Outlet) :
    (write text).exec sink outlet =
      match sink.offerAll outlet.past (utf8 text) with
      | (past, .ok ()) => (.ok (), { outlet with past })
      | (past, .error cause) => (.error (.error (.io cause)), { outlet with past }) := by
  rw [write, exec_bind, exec_offer]
  rcases sink.offerAll outlet.past (utf8 text) with ⟨past, cause | _⟩ <;> rfl

/-! ## Doing what a run does -/

/-- A failure has no sequel. -/
@[simp] theorem throw_bind (reason : Stop) (f : α → Writer β) :
    ((throw reason : Writer α) >>= f) = throw reason := rfl

/-- A result is a result. -/
@[simp] theorem ofRun_pure (a : α) : ofRun (pure a : Run α) = pure a := rfl

/-- A message is a message. -/
@[simp] theorem ofRun_log (message : Diagnostic) : ofRun (Run.log message) = log message := rfl

/-- A write is a write, now one that the sink may refuse. -/
@[simp] theorem ofRun_write (text : String) : ofRun (Run.write text) = write text := by
  simp [ofRun, Run.write, ofEvent]

/-- A failure is a failure. -/
@[simp] theorem ofRun_stop (reason : Stop) : ofRun (Run.stop reason : Run α) = throw reason := rfl

/-- What runs do one after the other, writers do one after the other. -/
theorem ofRun_bind (r : Run α) (f : α → Run β) :
    ofRun (r >>= f) = (do let a ← ofRun r; ofRun (f a)) := by
  rcases h : r.ending with reason | a
  · rw [Run.bind_of_error h]
    simp [ofRun, h]
  · rw [Run.bind_of_ok h]
    simp [ofRun, h, List.forM_append]

/-- The first event comes first. -/
theorem ofRun_cons (event : Event) (events : List Event) (ending : Except Stop α) :
    ofRun ⟨event :: events, ending⟩ = (do ofEvent event; ofRun ⟨events, ending⟩) := by
  simp [ofRun]

/-! ## Endings -/

/-- Into any sink, a writer that does what a run does ends as the run does, or because the sink
refused. -/
theorem exec_ofRun_ending (r : Run α) (sink : Sink) (outlet : Outlet) :
    ((ofRun r).exec sink outlet).1 = r.ending ∨
      ∃ cause, ((ofRun r).exec sink outlet).1 = .error (.error (.io cause)) := by
  obtain ⟨events, ending⟩ := r
  induction events generalizing outlet with
  | nil => cases ending <;> exact .inl rfl
  | cons event events ih =>
    rw [ofRun_cons, exec_bind]
    cases event with
    | logged message =>
      rw [ofEvent, exec_log]
      exact ih _
    | wrote text =>
      rw [ofEvent, exec_write]
      rcases sink.offerAll outlet.past (utf8 text) with ⟨past, cause | _⟩
      · exact .inr ⟨cause, rfl⟩
      · exact ih _

end Writer

/-- A run into a sink ends as it would without one, or because the sink refused. -/
theorem Run.deliverTo_ending (r : Run Unit) (sink : Sink) :
    (r.deliverTo sink).ending = r.ending ∨
      ∃ cause, (r.deliverTo sink).ending = .error (.error (.io cause)) :=
  Writer.exec_ofRun_ending r sink {}

/-- An orderly run is orderly into any sink, since a refusal is an error. -/
theorem Run.Orderly.deliverTo {r : Run Unit} (h : r.Orderly) (sink : Sink) :
    IsOrderly (r.deliverTo sink).ending := by
  rcases r.deliverTo_ending sink with hending | ⟨cause, hending⟩
  · rw [hending]
    exact h
  · rw [hending]
    trivial

end Kconfig
