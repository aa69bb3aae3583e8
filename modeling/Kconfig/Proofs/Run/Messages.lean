import Kconfig.Proofs.Run.Plan

/-!
# What plans say

A plan says the messages of its steps in turn: those it was given, and those that come up while the
text of an item is found (`Step.said`). That is what taking its steps says, as long as every item
that it gets to has a text (`Step.messages_runAll`).
-/

namespace Kconfig

namespace Run

variable {α β : Type}

/-- After a result, the messages of what comes next follow. -/
theorem messages_bind_of_ok {r : Run α} {a : α} (h : r.ending = .ok a) (f : α → Run β) :
    (r >>= f).messages = r.messages ++ (f a).messages := by
  rw [bind_of_ok h]
  exact List.filterMap_append

end Run

namespace Step

variable {ρ : Type}

/-- What a plan says, if `notes` is what is said while the text of an item is found. -/
def said (notes : ρ → List Diagnostic) : List (Step ρ) → List Diagnostic
  | [] => []
  | write item :: steps => notes item ++ said notes steps
  | note message :: steps => message :: said notes steps
  | stop _ :: _ => []

/-- Where every item has a text, taking the steps of a plan says what the plan says. -/
theorem messages_runAll {text : ρ → Run String} {notes : ρ → List Diagnostic}
    {steps : List (Step ρ)}
    (h : ∀ item ∈ written steps, (text item).messages = notes item ∧
      ∃ line, (text item).ending = .ok line) :
    (runAll text steps).messages = said notes steps := by
  induction steps with
  | nil => rfl
  | cons step steps ih =>
    rw [runAll_cons]
    cases step with
    | write item =>
      obtain ⟨⟨hnotes, line, hline⟩, hrest⟩ := List.forall_mem_cons.mp h
      have hstep : ((write item).run text).ending = .ok () := by
        rw [run, Run.bind_of_ok hline]
        rfl
      have hmessages : ((write item).run text).messages = notes item := by
        rw [run, Run.messages_bind_of_ok hline, hnotes]
        exact List.append_nil _
      rw [Run.messages_bind_of_ok hstep, hmessages, ih hrest]
      rfl
    | note message =>
      rw [Run.messages_bind_of_ok rfl, ih h]
      rfl
    | stop reason => rfl

/-- Of what a plan says, that which comes up with its items, if it can be told from what the plan
was given to say. -/
theorem filter_said {notes : ρ → List Diagnostic} {P : Diagnostic → Bool} {steps : List (Step ρ)}
    (hnotes : ∀ item, ∀ message ∈ notes item, P message)
    (hsteps : ∀ message, .note message ∈ steps → ¬ P message) :
    (said notes steps).filter P = (written steps).flatMap notes := by
  induction steps with
  | nil => rfl
  | cons step steps ih =>
    have hrest := ih fun message hmessage => hsteps message (List.mem_cons_of_mem _ hmessage)
    cases step with
    | write item =>
      rw [said, List.filter_append, List.filter_eq_self.mpr (hnotes item), hrest]
      rfl
    | note message =>
      rw [said, List.filter_cons_of_neg (hsteps message List.mem_cons_self), hrest]
      rfl
    | stop reason => rfl

end Step

end Kconfig
