import Kconfig.Run

/-!
# Plans of what to write

An output is planned before it is written: a plan is a list of steps, each of which writes an
item, says a message or stops. The items are still what they are about, such as a rule with its
expressions; only `Step.runAll` turns each into text, when its turn has come. So whatever the text
of an item depends on, messages and failures included, takes effect between the items around it.
-/

namespace Kconfig

/-- A step of a plan. -/
inductive Step (ρ : Type) where
  | write (item : ρ)
  | note (message : Diagnostic)
  | stop (reason : Stop)

namespace Step

variable {ρ : Type}

/-- Takes the steps of a plan in turn, after the events of `done`, the latest of which stands
first. The text of an item is complete before any of it is written. -/
def runAfter (text : ρ → Run String) (done : List Event) : List (Step ρ) → Run Unit
  | [] => ⟨done.reverse, .ok ()⟩
  | note message :: steps => runAfter text (.logged message :: done) steps
  | stop reason :: _ => ⟨done.reverse, .error reason⟩
  | write item :: steps =>
    match (text item).ending with
    | .error reason => ⟨done.reverse ++ (text item).events, .error reason⟩
    | .ok s => runAfter text (.wrote s :: (text item).events.reverse ++ done) steps

/-- Takes the steps of a plan in turn. -/
def runAll (text : ρ → Run String) (steps : List (Step ρ)) : Run Unit :=
  runAfter text [] steps

/-- One step by itself. -/
def run (text : ρ → Run String) : Step ρ → Run Unit
  | write item => do Run.write (← text item)
  | note message => Run.log message
  | stop reason => Run.stop reason

/-- Running a plan after some events appends its own, and the collected ones come out in their
order. -/
theorem runAfter_eq (text : ρ → Run String) (done : List Event) (steps : List (Step ρ)) :
    runAfter text done steps =
      ⟨done.reverse ++ (runAll text steps).events, (runAll text steps).ending⟩ := by
  induction steps generalizing done with
  | nil => simp [runAll, runAfter]
  | cons step steps ih =>
    cases step with
    | note message =>
      rw [runAll, runAfter, runAfter, ih (.logged message :: done), ih [.logged message]]
      simp
    | stop reason => simp [runAll, runAfter]
    | write item =>
      rw [runAll, runAfter, runAfter]
      cases h : (text item).ending with
      | error reason => simp
      | ok s =>
        simp only []
        rw [ih (.wrote s :: (text item).events.reverse ++ done),
          ih (.wrote s :: (text item).events.reverse ++ [])]
        simp

/-- No step, no event. -/
@[simp] theorem runAll_nil (text : ρ → Run String) : runAll text [] = pure () := rfl

/-- A plan takes its first step and then the others. -/
theorem runAll_cons (text : ρ → Run String) (step : Step ρ) (steps : List (Step ρ)) :
    runAll text (step :: steps) = (do step.run text; runAll text steps) := by
  cases step with
  | note message =>
    rw [runAll, runAfter, runAfter_eq]
    simp [run, Run.log, bind]
  | stop reason => simp [runAll, runAfter, run, Run.stop, bind]
  | write item =>
    rw [runAll, runAfter]
    cases h : (text item).ending with
    | error reason => simp [run, bind, h]
    | ok s =>
      simp only []
      rw [runAfter_eq]
      simp [run, Run.write, bind, h]

end Step

end Kconfig
