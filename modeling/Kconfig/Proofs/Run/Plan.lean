import Kconfig.Proofs.Run.Basic
import Kconfig.Step
import Mathlib.Data.List.Forall2

/-!
# What plans write

A plan writes its items in turn, up to where it stops (`Step.written`, `Step.ending`). That is what
taking its steps comes to, as long as every item that it gets to has a text and finding the text
writes nothing (`Step.runAll_of_texts`): there is one write for each item, and the ending is the
plan's own.

Runs that write the same text and end in the same way are alike (`Run.Alike`), whatever they say and
into however many writes the text is cut. What is put together of runs that are alike is alike.
-/

namespace Kconfig

namespace Run

variable {α β : Type}

/-! ## Writes -/

/-- The texts that a run writes, in order. -/
def writes (r : Run α) : List String :=
  r.events.filterMap fun
    | .wrote text => some text
    | .logged _ => none

/-- What a run writes is its texts, one after the other. -/
theorem output_eq_join (r : Run α) : r.output = String.join r.writes := rfl

/-- Who writes the first of some texts writes the first bytes of all of them. -/
theorem utf8_output_isPrefix {r r' : Run α} (h : r.writes <+: r'.writes) :
    utf8 r.output <+: utf8 r'.output := by
  obtain ⟨more, hmore⟩ := h
  rw [output_eq_join, output_eq_join, ← hmore, String.join_append, utf8_append]
  exact List.prefix_append _ _

/-- After a result, the writes of what comes next follow. -/
theorem writes_bind_of_ok {r : Run α} {a : α} (h : r.ending = .ok a) (f : α → Run β) :
    (r >>= f).writes = r.writes ++ (f a).writes := by
  rw [bind_of_ok h]
  exact List.filterMap_append

/-- After a failure, nothing more is written. -/
theorem writes_bind_of_error {r : Run α} {s : Stop} (h : r.ending = .error s) (f : α → Run β) :
    (r >>= f).writes = r.writes := by
  rw [bind_of_error h]
  rfl

/-- Runs that write nothing, one after the other. -/
theorem writes_bind_eq_nil {r : Run α} {f : α → Run β} (hr : r.writes = [])
    (hf : ∀ a, (f a).writes = []) : (r >>= f).writes = [] := by
  cases h : r.ending with
  | ok a => rw [writes_bind_of_ok h, hr, hf, List.append_nil]
  | error s => rw [writes_bind_of_error h, hr]

/-- Doing for each of many what writes nothing writes nothing. -/
theorem writes_mapM_eq_nil {f : α → Run β} (hf : ∀ a, (f a).writes = []) (as : List α) :
    (as.mapM f).writes = [] := by
  induction as with
  | nil => rfl
  | cons a as ih =>
    rw [List.mapM_cons]
    apply writes_bind_eq_nil (hf a)
    intro b
    apply writes_bind_eq_nil ih
    intro bs
    rfl

/-! ## Runs that come to a result -/

/-- Where a run comes to a result, so does its first part. -/
theorem exists_of_bind_ok {r : Run α} {f : α → Run β} {b : β} (h : (r >>= f).ending = .ok b) :
    ∃ a, r.ending = .ok a ∧ (f a).ending = .ok b := by
  cases hr : r.ending with
  | ok a =>
    rw [bind_of_ok hr] at h
    exact ⟨a, rfl, h⟩
  | error s =>
    rw [bind_of_error hr] at h
    cases h

/-- Where many runs in turn come to results, so does each. -/
theorem exists_of_mapM_ok {f : α → Run β} {as : List α} {bs : List β}
    (h : (as.mapM f).ending = .ok bs) : ∀ a ∈ as, ∃ b, (f a).ending = .ok b := by
  induction as generalizing bs with
  | nil => exact List.forall_mem_nil _
  | cons a as ih =>
    rw [List.mapM_cons] at h
    obtain ⟨b, hb, hrest⟩ := exists_of_bind_ok h
    obtain ⟨bs, hbs, -⟩ := exists_of_bind_ok hrest
    rw [List.forall_mem_cons]
    exact ⟨⟨b, hb⟩, ih hbs⟩

/-- Whether a run comes to a result and writes nothing on the way. -/
def IsQuiet (r : Run α) : Prop :=
  r.writes = [] ∧ ∃ a, r.ending = .ok a

/-- A result by itself is quiet. -/
theorem isQuiet_pure (a : α) : (pure a : Run α).IsQuiet := ⟨rfl, a, rfl⟩

/-- Saying something is quiet. -/
theorem isQuiet_log (message : Diagnostic) : (log message).IsQuiet := ⟨rfl, (), rfl⟩

/-- One quiet run after another is quiet. -/
theorem IsQuiet.bind {r : Run α} {f : α → Run β} (hr : r.IsQuiet) (hf : ∀ a, (f a).IsQuiet) :
    (r >>= f).IsQuiet := by
  obtain ⟨hwrites, a, ha⟩ := hr
  obtain ⟨hnext, b, hb⟩ := hf a
  refine ⟨?_, b, ?_⟩
  · rw [writes_bind_of_ok ha, hwrites, hnext]
    rfl
  · rw [bind_of_ok ha]
    exact hb

/-- Doing for each of many what is quiet for each is quiet. -/
theorem IsQuiet.mapM {f : α → Run β} {as : List α} (h : ∀ a ∈ as, (f a).IsQuiet) :
    (as.mapM f).IsQuiet := by
  induction as with
  | nil => exact isQuiet_pure []
  | cons a as ih =>
    rw [List.forall_mem_cons] at h
    rw [List.mapM_cons]
    apply h.1.bind
    intro b
    apply (ih h.2).bind
    intro bs
    exact isQuiet_pure (b :: bs)

/-! ## Runs that write the same text -/

/-- Whether two runs write the same text and end in the same way. -/
structure Alike (r r' : Run α) : Prop where
  output : r.output = r'.output
  ending : r.ending = r'.ending

/-- A run is like itself. -/
theorem Alike.refl (r : Run α) : r.Alike r := ⟨rfl, rfl⟩

/-- What comes of runs that are alike is alike if it is after the same result. -/
theorem Alike.bind {r r' : Run α} {f f' : α → Run β} (hr : r.Alike r')
    (hf : ∀ a, r.ending = .ok a → (f a).Alike (f' a)) : (r >>= f).Alike (r' >>= f') := by
  have houtput : String.join r.writes = String.join r'.writes := hr.output
  cases h : r.ending with
  | ok a =>
    have h' : r'.ending = .ok a := hr.ending.symm.trans h
    have hnext := hf a h
    constructor
    · rw [output_eq_join, output_eq_join, writes_bind_of_ok h, writes_bind_of_ok h',
        String.join_append, String.join_append, houtput]
      exact congrArg _ hnext.output
    · rw [bind_of_ok h, bind_of_ok h']
      exact hnext.ending
  | error s =>
    have h' : r'.ending = .error s := hr.ending.symm.trans h
    constructor
    · rw [output_eq_join, output_eq_join, writes_bind_of_error h, writes_bind_of_error h',
        houtput]
    · rw [bind_of_error h, bind_of_error h']

/-- What is done with the results makes runs that are alike no different. -/
theorem Alike.bind_left {r r' : Run α} (h : r.Alike r') (f : α → Run β) :
    (r >>= f).Alike (r' >>= f) :=
  h.bind fun a _ => .refl (f a)

/-- What is done after a run counts only if the run comes to a result. -/
theorem Alike.bind_right (r : Run α) {f f' : α → Run β}
    (h : ∀ a, r.ending = .ok a → (f a).Alike (f' a)) : (r >>= f).Alike (r >>= f') :=
  (Alike.refl r).bind h

/-- Doing for each of many what is alike for each is alike. -/
theorem Alike.mapM {f g : α → Run β} {as : List α} (h : ∀ a ∈ as, (f a).Alike (g a)) :
    (as.mapM f).Alike (as.mapM g) := by
  induction as with
  | nil => exact .refl _
  | cons a as ih =>
    rw [List.forall_mem_cons] at h
    rw [List.mapM_cons, List.mapM_cons]
    apply h.1.bind
    intro b _
    exact (ih h.2).bind_left _

end Run

namespace Step

variable {ρ σ : Type}

/-- The items that a plan writes. -/
def written : List (Step ρ) → List ρ
  | [] => []
  | write item :: steps => item :: written steps
  | note _ :: steps => written steps
  | stop _ :: _ => []

/-- How a plan ends. -/
def ending : List (Step ρ) → Except Stop Unit
  | [] => .ok ()
  | write _ :: steps => ending steps
  | note _ :: steps => ending steps
  | stop reason :: _ => .error reason

/-- Whether a plan goes on after a step. -/
def GoesOn : Step ρ → Prop
  | write _ => True
  | note _ => True
  | stop _ => False

/-- A plan whose steps all go on comes to its end. -/
theorem ending_of_goesOn {steps : List (Step ρ)} (h : ∀ step ∈ steps, step.GoesOn) :
    ending steps = .ok () := by
  induction steps with
  | nil => rfl
  | cons step steps ih =>
    rw [List.forall_mem_cons] at h
    cases step with
    | write item => exact ih h.2
    | note message => exact ih h.2
    | stop reason => exact h.1.elim

/-- A plan that does not stop goes on with the next one. -/
theorem written_append {a : List (Step ρ)} (h : ending a = .ok ()) (b : List (Step ρ)) :
    written (a ++ b) = written a ++ written b := by
  induction a with
  | nil => rfl
  | cons step a ih =>
    cases step with
    | write item => exact congrArg (item :: ·) (ih h)
    | note message => exact ih h
    | stop reason => cases h

/-- Plans in a row end as the second does, if the first comes to its end. -/
theorem ending_append {a : List (Step ρ)} (h : ending a = .ok ()) (b : List (Step ρ)) :
    ending (a ++ b) = ending b := by
  induction a with
  | nil => rfl
  | cons step a ih =>
    cases step with
    | write item => exact ih h
    | note message => exact ih h
    | stop reason => cases h

/-- Plans that do not stop, one for each of many. -/
theorem ending_flatMap {α : Type} {plan : α → List (Step ρ)} {as : List α}
    (h : ∀ a ∈ as, ending (plan a) = .ok ()) : ending (as.flatMap plan) = .ok () := by
  induction as with
  | nil => rfl
  | cons a as ih =>
    rw [List.forall_mem_cons] at h
    rw [List.flatMap_cons, ending_append h.1]
    exact ih h.2

/-- A plan made of two that comes to its end comes to the end of both. -/
theorem ending_append_eq_ok_iff {a b : List (Step ρ)} :
    ending (a ++ b) = .ok () ↔ ending a = .ok () ∧ ending b = .ok () := by
  induction a with
  | nil => exact (and_iff_right rfl).symm
  | cons step a ih =>
    cases step with
    | write item => exact ih
    | note message => exact ih
    | stop reason => exact iff_of_false nofun nofun

/-- A plan made of several comes to its end just if each of them does. -/
theorem ending_flatMap_eq_ok_iff {α : Type} {plan : α → List (Step ρ)} {as : List α} :
    ending (as.flatMap plan) = .ok () ↔ ∀ a ∈ as, ending (plan a) = .ok () := by
  induction as with
  | nil => exact iff_of_true rfl nofun
  | cons a as ih =>
    rw [List.flatMap_cons, ending_append_eq_ok_iff, ih, List.forall_mem_cons]

/-- Plans that come to their ends write one after the other. -/
theorem written_flatMap {α : Type} {plan : α → List (Step ρ)} {as : List α}
    (h : ∀ a ∈ as, ending (plan a) = .ok ()) :
    written (as.flatMap plan) = as.flatMap fun a => written (plan a) := by
  induction as with
  | nil => rfl
  | cons a as ih =>
    rw [List.forall_mem_cons] at h
    rw [List.flatMap_cons, written_append h.1, ih h.2, List.flatMap_cons]

/-- Plans, one for each of many, of which some stop at once and the others come to their ends: they
are taken up to the first that stops. -/
theorem flatMap_of_stops {α : Type} {plan : α → List (Step ρ)} {stops : α → Prop}
    [DecidablePred stops] {reason : α → Stop} (hgo : ∀ a, ¬ stops a → ending (plan a) = .ok ())
    (hstop : ∀ a, stops a → ∃ rest, plan a = stop (reason a) :: rest) (as : List α) :
    written (as.flatMap plan) =
        (as.takeWhile fun a => ¬ stops a).flatMap (fun a => written (plan a)) ∧
      ∀ a, (as.find? fun a => stops a) = some a →
        ending (as.flatMap plan) = .error (reason a) := by
  induction as with
  | nil => exact ⟨rfl, nofun⟩
  | cons a as ih =>
    rw [List.flatMap_cons, List.takeWhile_cons, List.find?_cons]
    by_cases ha : stops a
    · obtain ⟨rest, hplan⟩ := hstop a ha
      rw [hplan]
      simp [ha, written, ending]
    · rw [written_append (hgo a ha), ending_append (hgo a ha), ih.1]
      simpa [ha] using ih.2

/-- A plan of nothing but writes. -/
theorem written_map_write (items : List ρ) : written (items.map write) = items := by
  induction items with
  | nil => rfl
  | cons item items ih => exact congrArg (item :: ·) ih

/-- A plan that only writes comes to its end. -/
theorem ending_map_write (items : List ρ) : ending (items.map write) = .ok () := by
  induction items with
  | nil => rfl
  | cons item items ih => exact ih

/-- Makes another item of the one that a step writes. -/
def map (f : ρ → σ) : Step ρ → Step σ
  | write item => write (f item)
  | note message => note message
  | stop reason => stop reason

/-- What a changed plan writes is what the plan writes, changed. -/
theorem written_map (f : ρ → σ) (steps : List (Step ρ)) :
    written (steps.map (map f)) = (written steps).map f := by
  induction steps with
  | nil => rfl
  | cons step steps ih =>
    cases step with
    | write item => exact congrArg (f item :: ·) ih
    | note message => exact ih
    | stop reason => rfl

/-- A changed plan ends as the plan does. -/
theorem ending_map (f : ρ → σ) (steps : List (Step ρ)) :
    ending (steps.map (map f)) = ending steps := by
  induction steps with
  | nil => rfl
  | cons step steps ih =>
    cases step with
    | write item => exact ih
    | note message => exact ih
    | stop reason => rfl

/-- What is written is written by a step. -/
theorem mem_of_mem_written {steps : List (Step ρ)} {item : ρ} (h : item ∈ written steps) :
    .write item ∈ steps := by
  induction steps with
  | nil => cases h
  | cons step steps ih =>
    cases step with
    | write other =>
      rcases List.mem_cons.mp h with rfl | h
      · exact List.mem_cons_self
      · exact List.mem_cons_of_mem _ (ih h)
    | note message => exact List.mem_cons_of_mem _ (ih h)
    | stop reason => cases h

/-- Two plans, one after the other. -/
theorem runAll_append (text : ρ → Run String) (a b : List (Step ρ)) :
    runAll text (a ++ b) = (do runAll text a; runAll text b) := by
  induction a with
  | nil => rfl
  | cons step a ih =>
    rw [List.cons_append, runAll_cons, runAll_cons, ih, bind_assoc]

/-- A plan that is taken to its end has the text of each of its items. -/
theorem exists_of_runAll_ok {text : ρ → Run String} {steps : List (Step ρ)} {item : ρ}
    (h : (runAll text steps).ending = .ok ()) (hitem : .write item ∈ steps) :
    ∃ line, (text item).ending = .ok line := by
  induction steps with
  | nil => cases hitem
  | cons step steps ih =>
    rw [runAll_cons] at h
    obtain ⟨_, hstep, hrest⟩ := Run.exists_of_bind_ok h
    rcases List.mem_cons.mp hitem with rfl | hitem
    · obtain ⟨line, hline, -⟩ := Run.exists_of_bind_ok hstep
      exact ⟨line, hline⟩
    · exact ih hrest hitem

/-- A plan that is taken to its end does not stop. -/
theorem ending_of_runAll_ok {text : ρ → Run String} {steps : List (Step ρ)}
    (h : (runAll text steps).ending = .ok ()) : ending steps = .ok () := by
  induction steps with
  | nil => rfl
  | cons step steps ih =>
    rw [runAll_cons] at h
    obtain ⟨_, hstep, hrest⟩ := Run.exists_of_bind_ok h
    cases step with
    | write item => exact ih hrest
    | note message => exact ih hrest
    | stop reason => cases hstep

/-- Plans that are taken alike, one for each of many. -/
theorem runAll_flatMap_alike {α : Type} {text : ρ → Run String} {f g : α → List (Step ρ)}
    {as : List α} (h : ∀ a ∈ as, (runAll text (f a)).Alike (runAll text (g a))) :
    (runAll text (as.flatMap f)).Alike (runAll text (as.flatMap g)) := by
  induction as with
  | nil => exact .refl _
  | cons a as ih =>
    rw [List.forall_mem_cons] at h
    rw [List.flatMap_cons, List.flatMap_cons, runAll_append, runAll_append]
    apply h.1.bind
    intro _ _
    exact ih h.2

/-- A plan of items that are made into others before they are put into text. -/
theorem runAll_map (f : ρ → σ) (text : σ → Run String) (steps : List (Step ρ)) :
    runAll text (steps.map (map f)) = runAll (fun item => text (f item)) steps := by
  induction steps with
  | nil => rfl
  | cons step steps ih =>
    rw [List.map_cons, runAll_cons, runAll_cons, ih]
    cases step <;> rfl

/-- Where the text of each item is found without writing, a plan makes one write of each. -/
theorem runAll_of_texts {text : ρ → Run String} {steps : List (Step ρ)}
    (h : ∀ item ∈ written steps, (text item).IsQuiet) :
    List.Forall₂ (fun item line => (text item).ending = .ok line) (written steps)
        (runAll text steps).writes ∧
      (runAll text steps).ending = ending steps := by
  induction steps with
  | nil => exact ⟨.nil, rfl⟩
  | cons step steps ih =>
    rw [runAll_cons]
    cases step with
    | write item =>
      obtain ⟨⟨hquiet, s, hs⟩, hrest⟩ := List.forall_mem_cons.mp h
      obtain ⟨hwrites, hending⟩ := ih hrest
      have hstep : ((write item).run text).ending = .ok () := by
        rw [run, Run.bind_of_ok hs]
        rfl
      have hwrote : ((write item).run text).writes = [s] := by
        rw [run, Run.writes_bind_of_ok hs, hquiet]
        rfl
      rw [Run.writes_bind_of_ok hstep, hwrote, Run.bind_of_ok hstep]
      exact ⟨.cons hs hwrites, hending⟩
    | note message => exact ih h
    | stop reason => exact ⟨.nil, rfl⟩

end Step

end Kconfig
