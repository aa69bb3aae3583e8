import Kconfig.Proofs.Writer.Replay

/-!
# Writers that carry out plans

A writer carries out a plan if it does what taking the steps of the plan does
(`Writer.Performs`): it makes the same writes and says the same messages in the same order, it stops
where the plan stops, and of a refusal it makes its end and nothing else. There is a rule for each
way in which writers are put together: a single item, one writer after the other, a loop, something
optional and a condition. With these, a writer is compared with its plan part by part.
-/

namespace Kconfig.Writer

variable {α ρ : Type} {text : ρ → Run String} {w w' : Writer Unit} {steps steps' : List (Step ρ)}

/-- A writer does what taking the steps of a plan does. -/
def Performs (text : ρ → Run String) (w : Writer Unit) (steps : List (Step ρ)) : Prop :=
  w = ofRun (Step.runAll text steps)

namespace Performs

/-- Nothing is done where nothing is planned. -/
theorem nil : Performs text (return ()) [] := by
  rw [Performs, Step.runAll_nil, ofRun_pure]

/-- What does one step carries out the plan of that step. -/
theorem ofRun_run (step : Step ρ) : Performs text (ofRun (step.run text)) [step] := by
  unfold Performs
  rw [Step.runAll_cons, Step.runAll_nil]
  exact congrArg ofRun (bind_pure (step.run text)).symm

/-- An item is put into a text, and then the text is written. -/
theorem write (item : ρ) :
    Performs text (do let s ← ofRun (text item); Writer.write s) [.write item] := by
  have hrun : (do let s ← ofRun (text item); Writer.write s) =
      ofRun ((Step.write item).run text) := by
    rw [Step.run, ofRun_bind]
    simp only [ofRun_write]
  rw [hrun]
  exact ofRun_run (.write item)

/-- A message. -/
theorem note (message : Diagnostic) : Performs text (log message) [.note message] := by
  rw [← ofRun_log]
  exact ofRun_run (.note message)

/-- The end without a result. -/
theorem stop (reason : Stop) : Performs text (throw reason) [.stop reason] := by
  rw [← ofRun_stop]
  exact ofRun_run (.stop reason)

/-- The end with an error. -/
theorem fail (e : Error) : Performs text (Writer.fail e) [.stop (.error e)] :=
  stop (.error e)

/-- One writer after the other. -/
theorem append (h : Performs text w steps) (h' : Performs text w' steps') :
    Performs text (do w; w') (steps ++ steps') := by
  unfold Performs at *
  rw [Step.runAll_append, ofRun_bind, ← h, ← h']

/-- A loop does what is planned for each of its rounds. -/
theorem forM {w : α → Writer Unit} {steps : α → List (Step ρ)}
    (h : ∀ a, Performs text (w a) (steps a)) (as : List α) :
    Performs text (as.forM w) (as.flatMap steps) := by
  induction as with
  | nil => exact nil
  | cons a as ih => exact (h a).append ih

/-- A loop of single steps. -/
theorem forM_map {w : α → Writer Unit} {step : α → Step ρ} (h : ∀ a, Performs text (w a) [step a])
    (as : List α) : Performs text (as.forM w) (as.map step) := by
  rw [List.map_eq_flatMap]
  exact forM h as

/-- What is done with something optional, if it is there. -/
theorem optional {w : α → Writer Unit} {steps : α → List (Step ρ)}
    (h : ∀ a, Performs text (w a) (steps a)) (a? : Option α) :
    Performs text (a?.forM w) (a?.elim [] steps) := by
  cases a? with
  | none => exact nil
  | some a => exact h a

/-- What is done under a condition. -/
theorem when (c : Prop) [Decidable c] (h : Performs text w steps) :
    Performs text (Writer.when c w) (if c then steps else []) := by
  by_cases hc : c
  · rw [Writer.when, if_pos hc, if_pos hc]
    exact h
  · rw [Writer.when, if_neg hc, if_neg hc]
    exact nil

end Performs

end Kconfig.Writer
