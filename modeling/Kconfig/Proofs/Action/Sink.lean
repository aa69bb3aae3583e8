import Kconfig.Proofs.Action.Writer
import Kconfig.Proofs.Constraint.Soundness
import Kconfig.Proofs.Dump.Soundness
import Kconfig.Proofs.Writer.Room

/-!
# Actions and sinks

Two things hold of every action, whatever is asked for. On a model that passed the check it is
orderly (`Action.run_orderly`), so it ends with a result or an error, into every sink
(`Action.run_ends`). And a sink that fails when it is full only cuts off what is written, on any
model, checked or not (`Action.emit_truncates`).

What an action makes of a sink is found in two steps. The writers carry out the plan of the run
(`Action.emit_eq_ofRun`), each of them, so nothing that a sink does leads them elsewhere. Then it is
the run that goes into the sink, event by event.
-/

namespace Kconfig.Action

/-- Every action is orderly on a sound model. -/
theorem run_orderly {m : Model} (h : m.IsSound) (action : Action) (settings : Settings) :
    (action.run m settings).Orderly := by
  apply (Run.orderly_log _).bind
  intro _ _
  have hnames : ∀ names : List String,
      ∀ step ∈ names.map Step.write, step.Admits fun _ => True := by
    intro names step hstep
    obtain ⟨name, -, rfl⟩ := List.mem_map.mp hstep
    trivial
  cases action with
  | configs => exact Listing.writeNames_orderly (hnames _)
  | kconfigs => exact Listing.writeNames_orderly (hnames _)
  | menuSymbols => exact Listing.writeNames_orderly (Listing.menuSymbols_resolve h)
  | defaults => exact Listing.writeNames_orderly (hnames _)
  | extract => exact Constraint.extract_orderly h settings
  | deps name => exact Listing.writeDeps_orderly h settings name
  | dump => exact Dump.dump_orderly h

/-- What an action writes into a sink is what its run writes. -/
theorem deliver_emit (action : Action) (m : Model) (settings : Settings) (sink : Sink) :
    (action.emit m settings).deliver sink = (action.run m settings).deliverTo sink := by
  rw [emit_eq_ofRun, Run.deliverTo]

/-- Into the unlimited sink goes the whole run. -/
theorem deliver_emit_unlimited (action : Action) (m : Model) (settings : Settings) :
    let r := action.run m settings
    (action.emit m settings).deliver .unlimited = ⟨utf8 r.output, r.messages, r.ending⟩ := by
  intro r
  rw [deliver_emit, Run.deliverTo]
  exact Writer.deliver_of_fits (Sink.unlimited_hasRoom _) r (Nat.le_refl _)

/-- An action on a checked model ends with a result or an error, whatever sink it writes to. -/
theorem run_ends {m : Model} (h : m.validate = .ok ()) (action : Action) (settings : Settings)
    (sink : Sink) :
    ((action.run m settings).deliverTo sink).ending = .ok () ∨
      ∃ e, ((action.run m settings).deliverTo sink).ending = .error (.error e) := by
  have hsound := Model.validate_eq_ok_iff.mp h
  have horderly := (run_orderly hsound action settings).deliverTo sink
  rcases isOrderly_iff.mp horderly with ⟨_, hok⟩ | herror
  · exact .inl hok
  · exact .inr herror

/-- A model with a choice whose member is listed in its menu. -/
def menuChoice : Model where
  capabilities := { choiceMembers := .menu }
  symbols := #[{ name := some "A", kind := .bool },
    { kind := .bool, flags := .choice, dirDep := some (.symbol (.entry ⟨0⟩)) }]
  root := { children := [{ symbol := some ⟨1⟩, choiceMembers := [⟨0⟩] }] }

/-- The dump of this model into a sink of twenty bytes. -/
theorem menuChoice_run_ends :
    menuChoice.validate = .ok () ∧
      (((dump.run menuChoice {}).deliverTo (.limited 20)).ending = .ok () ∨
        ∃ e, ((dump.run menuChoice {}).deliverTo (.limited 20)).ending = .error (.error e)) := by
  have hover : (⟨[], none⟩ : MenuWalk).events = [] := MenuWalk.events_of_next_eq_none rfl
  have hascend : (⟨[[]], none⟩ : MenuWalk).events = [.ascend] :=
    (MenuWalk.events_of_next_eq_some rfl).trans (congrArg _ hover)
  have hwalk : menuChoice.root.walk.events =
      [.visit { symbol := some ⟨1⟩, choiceMembers := [⟨0⟩] }, .ascend] :=
    (MenuWalk.events_of_next_eq_some rfl).trans (congrArg _ hascend)
  have hmenus : menuChoice.menus = menuChoice.root.children := by
    rw [Model.menus, Menu.descendants, hwalk]
    rfl
  have hcheck : menuChoice.validate = .ok () := by
    rw [Model.validate, hmenus]
    rfl
  exact ⟨hcheck, run_ends hcheck dump {} (.limited 20)⟩

/-- A sink that takes `room` bytes in all and then fails only truncates. Where all that an action
writes into the unlimited sink fits, the sink makes no difference; where not, the sink has the first
bytes of it and the action ends with the sink's error. The messages are the first ones in any
case. Into the unlimited sink the action writes, says and ends as its run does. -/
theorem emit_truncates {sink : Sink} {room : Nat} {cause : String}
    (h : sink.TakesInAll room cause) (action : Action) (m : Model) (settings : Settings) :
    let r := action.run m settings
    let whole := (action.emit m settings).deliver .unlimited
    let cut := (action.emit m settings).deliver sink
    whole = ⟨utf8 r.output, r.messages, r.ending⟩ ∧
      (whole.bytes.length ≤ room → cut = whole) ∧
      (room < whole.bytes.length →
        cut.bytes = whole.bytes.take room ∧ cut.ending = .error (.error (.io cause))) ∧
      cut.messages <+: whole.messages := by
  intro r whole cut
  have hwhole : whole = ⟨utf8 r.output, r.messages, r.ending⟩ :=
    deliver_emit_unlimited action m settings
  have hcut : cut = (Writer.ofRun r).deliver sink := deliver_emit action m settings sink
  rw [hwhole, hcut]
  by_cases hfits : (utf8 r.output).length ≤ room
  · rw [Writer.deliver_of_fits h.hasRoom r hfits]
    exact ⟨rfl, fun _ => rfl, fun hnot => absurd hfits (Nat.not_le.mpr hnot), List.prefix_refl _⟩
  · obtain ⟨messages, hprefix, hdeliver⟩ :=
      Writer.deliver_of_not_fits h r (Nat.lt_of_not_le hfits)
    rw [hdeliver]
    exact ⟨rfl, fun hall => absurd hall hfits, fun _ => ⟨rfl, rfl⟩, hprefix⟩

/-- The dump of a model into a sink of twenty bytes. -/
theorem menuChoice_emit_truncates :
    let r := dump.run menuChoice {}
    let whole := (dump.emit menuChoice {}).deliver .unlimited
    let cut := (dump.emit menuChoice {}).deliver (.limited 20)
    (Sink.limited 20).TakesInAll 20 "sink full" ∧
      whole = ⟨utf8 r.output, r.messages, r.ending⟩ ∧
      (whole.bytes.length ≤ 20 → cut = whole) ∧
      (20 < whole.bytes.length →
        cut.bytes = whole.bytes.take 20 ∧ cut.ending = .error (.error (.io "sink full"))) ∧
      cut.messages <+: whole.messages :=
  ⟨Sink.limited_takesInAll 20, emit_truncates (Sink.limited_takesInAll 20) dump menuChoice {}⟩

end Kconfig.Action
