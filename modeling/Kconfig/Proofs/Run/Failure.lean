import Kconfig.Proofs.Run.Plan
import Mathlib.Data.List.Basic

/-!
# How plans fail

A plan that is taken fails as the first of its steps does that fails by itself, and if none does it
comes to its end (`Step.ending_runAll`). What a step fails for is known without the steps before it,
so the failure of a plan that is put together of others is found as one looks for the first of
many things (`List.findSome?`).

Before it fails, a plan has written what came before. If the items are put into texts in another
way that makes the same of those that have one, these writes are the first ones
(`Step.writes_runAll_isPrefix`).
-/

namespace Kconfig

/-! ## The first of many -/

/-- The first hit in lists in a row is that of the first list that has one. -/
theorem findSome?_flatMap {α β γ : Type} {f : β → Option γ} {g : α → List β} {as : List α} :
    (as.flatMap g).findSome? f = as.findSome? fun a => (g a).findSome? f := by
  simp only [← List.head?_filterMap, List.filterMap_flatMap, List.head?_flatMap]

/-- The first hit among what is kept is found without keeping it. -/
theorem findSome?_filterMap {α β γ : Type} {f : β → Option γ} {g : α → Option β} {as : List α} :
    (as.filterMap g).findSome? f = as.findSome? fun a => (g a).bind f := by
  simp only [← List.head?_filterMap, List.filterMap_filterMap]

/-- Searches that agree on every item of a list find the same. -/
theorem findSome?_congr {α β : Type} {f g : α → Option β} {as : List α}
    (h : ∀ a ∈ as, f a = g a) : as.findSome? f = as.findSome? g := by
  rw [← List.head?_filterMap, List.filterMap_congr h, List.head?_filterMap]

/-! ## Runs -/

namespace Run

variable {α β : Type}

/-- Where there is but one reason for which any of many runs may fail, and one does, all of them in
turn fail for it. -/
theorem ending_mapM_of_error {f : α → Run β} {reason : Stop} {as : List α}
    (h : ∀ a ∈ as, (f a).ending = .error reason ∨ ∃ b, (f a).ending = .ok b)
    (hfails : ∃ a ∈ as, (f a).ending = .error reason) : (as.mapM f).ending = .error reason := by
  induction as with
  | nil => exact absurd hfails (by simp)
  | cons a as ih =>
    obtain ⟨ha, has⟩ := List.forall_mem_cons.mp h
    rw [List.mapM_cons]
    rcases ha with hfirst | ⟨b, hfirst⟩
    · rw [bind_of_error hfirst]
    · have hothers : ∃ a' ∈ as, (f a').ending = .error reason := by
        obtain ⟨a', ha', hreason⟩ := hfails
        rcases List.mem_cons.mp ha' with rfl | ha'
        · rw [hfirst] at hreason
          cases hreason
        · exact ⟨a', ha', hreason⟩
      rw [bind_of_ok hfirst, bind_of_error (ih has hothers)]

end Run

/-! ## Plans -/

namespace Step

variable {ρ : Type} {text text' : ρ → Run String}

/-- Why a step fails, if it does. -/
def failure? (text : ρ → Run String) : Step ρ → Option Stop
  | write item =>
    match (text item).ending with
    | .ok _ => none
    | .error reason => some reason
  | note _ => none
  | stop reason => some reason

/-- An item whose text is found does not fail. -/
theorem failure?_write_of_ok {item : ρ} {line : String} (h : (text item).ending = .ok line) :
    (write item).failure? text = none := by
  simp only [failure?, h]

/-- An item whose text is not found fails for the same reason. -/
theorem failure?_write_of_error {item : ρ} {reason : Stop}
    (h : (text item).ending = .error reason) : (write item).failure? text = some reason := by
  simp only [failure?, h]

/-- A step ends with its failure. -/
theorem ending_run (text : ρ → Run String) (step : Step ρ) :
    (step.run text).ending = (step.failure? text).elim (.ok ()) .error := by
  cases step with
  | write item =>
    rcases h : (text item).ending with reason | line
    · rw [failure?_write_of_error h, run, Run.bind_of_error h]
      rfl
    · rw [failure?_write_of_ok h, run, Run.bind_of_ok h]
      rfl
  | note | stop => rfl

/-- A plan ends with the failure of the first step that fails. -/
theorem ending_runAll (steps : List (Step ρ)) :
    (runAll text steps).ending = (steps.findSome? (failure? text)).elim (.ok ()) .error := by
  induction steps with
  | nil => rfl
  | cons step steps ih =>
    have hstep := ending_run text step
    rw [runAll_cons, List.findSome?_cons]
    rcases hfailure : step.failure? text with _ | reason
    · rw [hfailure] at hstep
      rw [Run.bind_of_ok hstep]
      exact ih
    · rw [hfailure] at hstep
      rw [Run.bind_of_error hstep]
      rfl

/-- What is written before a plan fails is written first where more items have a text. -/
theorem writes_runAll_isPrefix (hwrites : ∀ item, (text item).writes = [])
    (hwrites' : ∀ item, (text' item).writes = [])
    (h : ∀ item line, (text item).ending = .ok line → (text' item).ending = .ok line)
    (steps : List (Step ρ)) : (runAll text steps).writes <+: (runAll text' steps).writes := by
  induction steps with
  | nil => exact List.prefix_refl _
  | cons step steps ih =>
    rw [runAll_cons, runAll_cons]
    cases step with
    | write item =>
      have hwrite : ∀ {t : ρ → Run String} {line : String}, (t item).writes = [] →
          (t item).ending = .ok line →
          ((write item).run t).ending = .ok () ∧ ((write item).run t).writes = [line] := by
        intro t line hquiet hline
        rw [run, Run.writes_bind_of_ok hline, hquiet, Run.bind_of_ok hline]
        exact ⟨rfl, rfl⟩
      rcases hline : (text item).ending with reason | line
      · have hfails : ((write item).run text).ending = .error reason := by
          rw [run, Run.bind_of_error hline]
        rw [Run.writes_bind_of_error hfails, run, Run.writes_bind_of_error hline, hwrites]
        exact List.nil_prefix
      · obtain ⟨hending, hwrote⟩ := hwrite (hwrites item) hline
        obtain ⟨hending', hwrote'⟩ := hwrite (hwrites' item) (h item line hline)
        rw [Run.writes_bind_of_ok hending, Run.writes_bind_of_ok hending', hwrote, hwrote',
          List.prefix_append_right_inj]
        exact ih
    | note message => exact ih
    | stop reason => exact List.prefix_refl _

end Step

end Kconfig
