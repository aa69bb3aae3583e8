import Kconfig.Proofs.Run.Basic
import Kconfig.Step

/-!
# Runs that end with a result or an error

A run may also end because something was asked for that is not there. A run that does not is
orderly. Everything that runs are put together by keeps them orderly: one after the other, for each
of many, and the steps of a plan.
-/

namespace Kconfig

variable {α β : Type}

/-- Whether an ending is a result or an error. -/
def IsOrderly : Except Stop α → Prop
  | .ok _ => True
  | .error (.error _) => True
  | .error (.outOfTable _) => False
  | .error (.noOrdering _) => False

/-- An ending is orderly just if it is a result or an error. -/
theorem isOrderly_iff {ending : Except Stop α} :
    IsOrderly ending ↔ (∃ a, ending = .ok a) ∨ ∃ e, ending = .error (.error e) := by
  rcases ending with (e | id | kind) | a
  · exact iff_of_true trivial (.inr ⟨e, rfl⟩)
  · exact iff_of_false (fun h => h) (by simp)
  · exact iff_of_false (fun h => h) (by simp)
  · exact iff_of_true trivial (.inl ⟨a, rfl⟩)

namespace Run

/-- Whether a run ends with a result or an error. -/
def Orderly (r : Run α) : Prop :=
  IsOrderly r.ending

/-- A result is orderly. -/
theorem orderly_pure (a : α) : (pure a : Run α).Orderly := trivial

/-- Writing is orderly. -/
theorem orderly_write (text : String) : (write text).Orderly := trivial

/-- Saying something is orderly. -/
theorem orderly_log (message : Diagnostic) : (log message).Orderly := trivial

/-- An error is orderly. -/
theorem orderly_fail (e : Error) : (fail e : Run α).Orderly := trivial

/-- What comes after a result needs to be orderly, and nothing else. -/
theorem Orderly.bind {r : Run α} {f : α → Run β} (hr : r.Orderly)
    (hf : ∀ a, r.ending = .ok a → (f a).Orderly) : (r >>= f).Orderly := by
  cases h : r.ending with
  | ok a =>
    rw [bind_of_ok h]
    exact hf a h
  | error s =>
    rw [bind_of_error h]
    unfold Orderly at hr
    rw [h] at hr
    cases s with
    | error e => trivial
    | outOfTable id => exact hr.elim
    | noOrdering kind => exact hr.elim

/-- Doing for each of many what is orderly for each is orderly. -/
theorem Orderly.mapM {f : α → Run β} {as : List α} (h : ∀ a ∈ as, (f a).Orderly) :
    (as.mapM f).Orderly := by
  induction as with
  | nil => exact orderly_pure []
  | cons a as ih =>
    rw [List.mapM_cons]
    have hrest : (as.mapM f).Orderly := by
      apply ih
      intro b hb
      exact h b (List.mem_cons_of_mem a hb)
    apply (h a List.mem_cons_self).bind
    intro b _
    apply hrest.bind
    intro bs _
    exact orderly_pure (b :: bs)

end Run

namespace Step

variable {ρ : Type}

/-- What is to be known of a step: if it writes an item, the item has a property, and if it stops,
it does so with an error. -/
def Admits (P : ρ → Prop) : Step ρ → Prop
  | write item => P item
  | note _ => True
  | stop reason => ∃ e, reason = .error e

/-- A plan is orderly where the texts of its items are. -/
theorem runAll_orderly {text : ρ → Run String} {P : ρ → Prop}
    (htext : ∀ item, P item → (text item).Orderly) {steps : List (Step ρ)}
    (hsteps : ∀ step ∈ steps, step.Admits P) : (runAll text steps).Orderly := by
  induction steps with
  | nil => exact Run.orderly_pure ()
  | cons step steps ih =>
    rw [List.forall_mem_cons] at hsteps
    obtain ⟨hstep, hrest⟩ := hsteps
    have hfirst : (step.run text).Orderly := by
      cases step with
      | write item =>
        apply (htext item hstep).bind
        intro s _
        exact Run.orderly_write s
      | note message => exact Run.orderly_log message
      | stop reason =>
        obtain ⟨e, rfl⟩ := hstep
        exact Run.orderly_fail e
    rw [runAll_cons]
    apply hfirst.bind
    intro _ _
    exact ih hrest

end Step

end Kconfig
