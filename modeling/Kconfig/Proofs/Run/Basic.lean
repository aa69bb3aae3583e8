import Kconfig.Run

/-!
# Runs step by step

How the events and the ending of a run come from those of its parts. A run that ends with a result
goes on with what is done with it; one that does not, ends there.
-/

namespace Kconfig

/-- The bytes of two texts, one after the other. -/
theorem utf8_append (a b : String) : utf8 (a ++ b) = utf8 a ++ utf8 b := by
  simp [utf8, String.toByteArray_append]

namespace Run

variable {α β : Type}

/-- A result alone has no events. -/
@[simp] theorem pure_events (a : α) : (pure a : Run α).events = [] := rfl

/-- A result alone is how its run ends. -/
@[simp] theorem pure_ending (a : α) : (pure a : Run α).ending = .ok a := rfl

/-! ## Output and messages, event by event -/

/-- Without events nothing is written. -/
@[simp] theorem output_nil (ending : Except Stop α) : output ⟨[], ending⟩ = "" := by
  simp [output]

/-- A write comes before what is written later. -/
@[simp] theorem output_wrote (text : String) (events : List Event) (ending : Except Stop α) :
    output ⟨.wrote text :: events, ending⟩ = text ++ output ⟨events, ending⟩ := by
  simp [output]

/-- A message writes nothing. -/
@[simp] theorem output_logged (message : Diagnostic) (events : List Event)
    (ending : Except Stop α) :
    output ⟨.logged message :: events, ending⟩ = output ⟨events, ending⟩ := rfl

/-- Without events nothing is said. -/
@[simp] theorem messages_nil (ending : Except Stop α) : messages ⟨[], ending⟩ = [] := rfl

/-- A write says nothing. -/
@[simp] theorem messages_wrote (text : String) (events : List Event) (ending : Except Stop α) :
    messages ⟨.wrote text :: events, ending⟩ = messages ⟨events, ending⟩ := rfl

/-- A message comes before what is said later. -/
@[simp] theorem messages_logged (message : Diagnostic) (events : List Event)
    (ending : Except Stop α) :
    messages ⟨.logged message :: events, ending⟩ = message :: messages ⟨events, ending⟩ := rfl

/-! ## One run after the other -/

/-- After a result. -/
theorem bind_of_ok {r : Run α} {a : α} (h : r.ending = .ok a) (f : α → Run β) :
    (r >>= f) = ⟨r.events ++ (f a).events, (f a).ending⟩ := by
  simp only [bind, h]

/-- After an end without a result. -/
theorem bind_of_error {r : Run α} {s : Stop} (h : r.ending = .error s) (f : α → Run β) :
    (r >>= f) = ⟨r.events, .error s⟩ := by
  simp only [bind, h]

/-- Where two runs are the same for each of many, so are all of them in turn. -/
theorem mapM_congr {f g : α → Run β} {as : List α} (h : ∀ a ∈ as, f a = g a) :
    as.mapM f = as.mapM g := by
  induction as with
  | nil => rfl
  | cons a as ih =>
    rw [List.forall_mem_cons] at h
    rw [List.mapM_cons, List.mapM_cons, h.1, ih h.2]

/-- Where each of many runs ends with a result, so do all of them in turn. -/
theorem mapM_of_ok {f : α → Run β} {events : α → List Event} {result : α → β} {as : List α}
    (h : ∀ a ∈ as, f a = ⟨events a, .ok (result a)⟩) :
    as.mapM f = ⟨as.flatMap events, .ok (as.map result)⟩ := by
  induction as with
  | nil => rfl
  | cons a as ih =>
    have ha := h a List.mem_cons_self
    have has : as.mapM f = ⟨as.flatMap events, .ok (as.map result)⟩ := by
      apply ih
      intro b hb
      exact h b (List.mem_cons_of_mem a hb)
    rw [List.mapM_cons, ha, has]
    simp [bind]

end Run

end Kconfig
