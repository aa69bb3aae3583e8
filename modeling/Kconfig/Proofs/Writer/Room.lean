import Kconfig.Proofs.Writer.Replay

/-!
# Sinks with room for so much

A sink may take so many bytes in all, in portions of any size, and then fail
(`Sink.TakesInAll`); the sink with limited room is one of these. Into such a sink, a writer that does
what a run does writes all that the run writes if there is room for it, and then the sink makes no
difference (`Writer.deliver_of_fits`). If not, it fills the sink with the first bytes, says the first
messages and ends with the cause of the refusal (`Writer.deliver_of_not_fits`).

Both are shown for one text, portion by portion, and then for one event after the other. They tell
such writers from others: one that goes on after a refusal does what no run does
(`Writer.offer_ne_ofRun`).
-/

namespace Kconfig

namespace Sink

variable {sink : Sink} {room : Nat} {cause : String}

/-! ## What was taken -/

/-- Before any offer nothing is taken. -/
@[simp] theorem content_nil : content [] = [] := rfl

/-- What the latest offer brought comes after the rest. -/
@[simp] theorem content_cons (o : Offer) (past : List Offer) :
    content (o :: past) = content past ++ o.bytes.take o.taken := by
  simp [content]

/-- The latest offer adds to the load what was taken of it. -/
@[simp] theorem load_cons (o : Offer) (past : List Offer) :
    load (o :: past) = load past + o.taken := rfl

/-! ## How sinks answer -/

/-- A sink that takes something of what fits into its room. -/
def HasRoom (sink : Sink) (room : Nat) : Prop :=
  ∀ past bytes, bytes ≠ [] → load past + bytes.length ≤ room →
    ∃ n, sink past bytes = .ok n ∧ 0 < n.val

/-- A sink that takes so many bytes in all, in whatever portions, and fails when it has them. -/
structure TakesInAll (sink : Sink) (room : Nat) (cause : String) : Prop where
  /-- Where room is left, something is taken, and no more than there is room for. -/
  takes : ∀ past bytes, bytes ≠ [] → load past < room →
    ∃ n, sink past bytes = .ok n ∧ 0 < n.val ∧ load past + n.val ≤ room
  /-- Where no room is left, there is the failure. -/
  refuses : ∀ past bytes, bytes ≠ [] → room ≤ load past → sink past bytes = .error cause

/-- A sink that takes so many bytes in all has room for as many. -/
theorem TakesInAll.hasRoom (h : sink.TakesInAll room cause) : sink.HasRoom room := by
  intro past bytes hbytes hfits
  have hlength := List.length_pos_iff.mpr hbytes
  obtain ⟨n, hn, hpos, -⟩ := h.takes past bytes hbytes (by omega)
  exact ⟨n, hn, hpos⟩

/-- The unlimited sink has any room. -/
theorem unlimited_hasRoom (room : Nat) : unlimited.HasRoom room := by
  intro past bytes hbytes _
  exact ⟨Fin.last bytes.length, rfl, List.length_pos_iff.mpr hbytes⟩

/-- The sink with limited room takes as many bytes in all. -/
theorem limited_takesInAll (room : Nat) : (limited room).TakesInAll room "sink full" where
  takes := by
    intro past bytes hbytes hroom
    have hlength := List.length_pos_iff.mpr hbytes
    have hleft : room - load past ≠ 0 := by omega
    refine ⟨⟨min (room - load past) bytes.length, by omega⟩, if_neg hleft, ?_, ?_⟩
    · simp only []
      omega
    · simp only []
      omega
  refuses := by
    intro past bytes _ hroom
    have hleft : room - load past = 0 := by omega
    exact if_pos hleft

/-! ## Offering all of some bytes -/

/-- Bytes that fit are taken. -/
theorem offerAll_of_fits (h : sink.HasRoom room) (past : List Offer) (bytes : List UInt8)
    (hfits : load past + bytes.length ≤ room) :
    ∃ past', sink.offerAll past bytes = (past', .ok ()) ∧
      content past' = content past ++ bytes ∧ load past' = load past + bytes.length := by
  fun_induction offerAll sink past bytes with
  | case1 past => exact ⟨past, rfl, by simp⟩
  | case2 past bytes hbytes cause hcause =>
    obtain ⟨n, hn, -⟩ := h past bytes hbytes hfits
    rw [hn] at hcause
    cases hcause
  | case3 past bytes hbytes n hn hzero =>
    obtain ⟨n', hn', hpos⟩ := h past bytes hbytes hfits
    rw [hn'] at hn
    cases hn
    omega
  | case4 past bytes hbytes n hn hzero ih =>
    have hrest : load (⟨bytes, n⟩ :: past) + (bytes.drop n).length ≤ room := by
      simp only [load_cons, List.length_drop]
      omega
    obtain ⟨past', hoffer, hcontent, hload⟩ := ih hrest
    refine ⟨past', hoffer, ?_, ?_⟩
    · rw [hcontent, content_cons, List.append_assoc, List.take_append_drop]
    · rw [hload, load_cons, List.length_drop]
      simp only []
      omega

/-- Of bytes that do not fit, those are taken that do. -/
theorem offerAll_of_not_fits (h : sink.TakesInAll room cause) (past : List Offer)
    (bytes : List UInt8) (hload : load past ≤ room) (hfits : room < load past + bytes.length) :
    ∃ past', sink.offerAll past bytes = (past', .error cause) ∧
      content past' = content past ++ bytes.take (room - load past) := by
  fun_induction offerAll sink past bytes with
  | case1 past =>
    rw [List.length_nil] at hfits
    omega
  | case2 past bytes hbytes cause' hcause =>
    -- there is a refusal only where no room is left
    have hfull : room ≤ load past := by
      by_contra hroom
      obtain ⟨n, hn, -⟩ := h.takes past bytes hbytes (by omega)
      rw [hn] at hcause
      cases hcause
    have hleft : room - load past = 0 := by omega
    rw [h.refuses past bytes hbytes hfull] at hcause
    cases hcause
    refine ⟨_, rfl, ?_⟩
    rw [hleft, content_cons]
    rfl
  | case3 past bytes hbytes n hn hzero =>
    by_cases hroom : load past < room
    · obtain ⟨n', hn', hpos, -⟩ := h.takes past bytes hbytes hroom
      rw [hn'] at hn
      cases hn
      omega
    · rw [h.refuses past bytes hbytes (by omega)] at hn
      cases hn
  | case4 past bytes hbytes n hn hzero ih =>
    have htaken : load past + n.val ≤ room := by
      by_cases hroom : load past < room
      · obtain ⟨n', hn', -, htaken⟩ := h.takes past bytes hbytes hroom
        rw [hn'] at hn
        cases hn
        exact htaken
      · rw [h.refuses past bytes hbytes (by omega)] at hn
        cases hn
    have hrest : room < load (⟨bytes, n⟩ :: past) + (bytes.drop n).length := by
      simp only [load_cons, List.length_drop]
      omega
    obtain ⟨past', hoffer, hcontent⟩ := ih (by rw [load_cons]; exact htaken) hrest
    have hsplit : room - load past = n.val + (room - (load past + n.val)) := by omega
    refine ⟨past', hoffer, ?_⟩
    rw [hcontent, content_cons, load_cons, List.append_assoc, hsplit, List.take_add]

end Sink

/-! ## Offering all that a run writes -/

namespace Writer

variable {α : Type} {sink : Sink} {room : Nat} {cause : String}

/-- Where all that a run writes fits, the sink makes no difference. -/
theorem exec_ofRun_of_fits (h : sink.HasRoom room) (r : Run α) (outlet : Outlet)
    (hfits : Sink.load outlet.past + (utf8 r.output).length ≤ room) :
    ∃ past, (ofRun r).exec sink outlet = (r.ending, ⟨past, r.messages.reverse ++ outlet.messages⟩) ∧
      Sink.content past = Sink.content outlet.past ++ utf8 r.output := by
  obtain ⟨events, ending⟩ := r
  induction events generalizing outlet with
  | nil => cases ending <;> exact ⟨outlet.past, rfl, by simp [utf8]⟩
  | cons event events ih =>
    rw [ofRun_cons, exec_bind]
    cases event with
    | logged message =>
      obtain ⟨past, hexec, hcontent⟩ := ih { outlet with messages := message :: outlet.messages } hfits
      refine ⟨past, ?_, hcontent⟩
      rw [ofEvent, exec_log]
      simp only []
      rw [hexec]
      simp
    | wrote text =>
      rw [Run.output_wrote, utf8_append, List.length_append] at hfits
      obtain ⟨past, hoffer, hcontent, hload⟩ :=
        Sink.offerAll_of_fits h outlet.past (utf8 text) (by omega)
      obtain ⟨past', hexec, hcontent'⟩ := ih { outlet with past } (by simp only [hload]; omega)
      refine ⟨past', ?_, ?_⟩
      · rw [ofEvent, exec_write, hoffer]
        exact hexec
      · rw [hcontent', hcontent, Run.output_wrote, utf8_append, List.append_assoc]

/-- Where not all that a run writes fits, its first bytes fill the sink. -/
theorem exec_ofRun_of_not_fits (h : sink.TakesInAll room cause) (r : Run α) (outlet : Outlet)
    (hload : Sink.load outlet.past ≤ room)
    (hfits : room < Sink.load outlet.past + (utf8 r.output).length) :
    ∃ past messages, messages <+: r.messages ∧
      (ofRun r).exec sink outlet =
        (.error (.error (.io cause)), ⟨past, messages.reverse ++ outlet.messages⟩) ∧
      Sink.content past =
        Sink.content outlet.past ++ (utf8 r.output).take (room - Sink.load outlet.past) := by
  obtain ⟨events, ending⟩ := r
  induction events generalizing outlet with
  | nil =>
    have hempty : (utf8 (Run.output (⟨[], ending⟩ : Run α))).length = 0 := by simp [utf8]
    omega
  | cons event events ih =>
    rw [ofRun_cons, exec_bind]
    cases event with
    | logged message =>
      obtain ⟨past, messages, hprefix, hexec, hcontent⟩ :=
        ih { outlet with messages := message :: outlet.messages } hload hfits
      refine ⟨past, message :: messages, (List.prefix_cons_inj message).mpr hprefix, ?_, hcontent⟩
      rw [ofEvent, exec_log]
      simp only []
      rw [hexec]
      simp
    | wrote text =>
      rw [Run.output_wrote, utf8_append, List.length_append] at hfits
      rw [Run.output_wrote, utf8_append, ofEvent, exec_write]
      -- the text that does not fit any more is this one or a later one
      by_cases htext : Sink.load outlet.past + (utf8 text).length ≤ room
      · obtain ⟨past, hoffer, hcontent, hload'⟩ :=
          Sink.offerAll_of_fits h.hasRoom outlet.past (utf8 text) htext
        obtain ⟨past', messages, hprefix, hexec, hcontent'⟩ :=
          ih { outlet with past } (by simp only [hload']; omega) (by simp only [hload']; omega)
        refine ⟨past', messages, hprefix, ?_, ?_⟩
        · rw [hoffer]
          exact hexec
        · have hwhole : (utf8 text).take (room - Sink.load outlet.past) = utf8 text :=
            List.take_of_length_le (by omega)
          rw [hcontent', hcontent, hload', List.append_assoc, List.take_append, hwhole, Nat.sub_sub]
      · -- the sink is full within this text
        obtain ⟨past, hoffer, hcontent⟩ :=
          Sink.offerAll_of_not_fits h outlet.past (utf8 text) hload (by omega)
        refine ⟨past, [], List.nil_prefix, ?_, ?_⟩
        · rw [hoffer]
          rfl
        · rw [hcontent, List.take_append_of_le_length (by omega)]

/-- Into a sink with room for all that a run writes, nothing is lost. -/
theorem deliver_of_fits (h : sink.HasRoom room) (r : Run Unit)
    (hfits : (utf8 r.output).length ≤ room) :
    (ofRun r).deliver sink = ⟨utf8 r.output, r.messages, r.ending⟩ := by
  obtain ⟨past, hexec, hcontent⟩ := exec_ofRun_of_fits h r {} (by simpa [Sink.load] using hfits)
  rw [deliver, hexec]
  simp [hcontent]

/-- Into a sink without room for all that a run writes, the first bytes go. -/
theorem deliver_of_not_fits (h : sink.TakesInAll room cause) (r : Run Unit)
    (hfits : room < (utf8 r.output).length) :
    ∃ messages, messages <+: r.messages ∧
      (ofRun r).deliver sink =
        ⟨(utf8 r.output).take room, messages, .error (.error (.io cause))⟩ := by
  obtain ⟨past, messages, hprefix, hexec, hcontent⟩ :=
    exec_ofRun_of_not_fits h r {} (by simp [Sink.load]) (by simpa [Sink.load] using hfits)
  refine ⟨messages, hprefix, ?_⟩
  rw [deliver, hexec]
  simp [hcontent, Sink.load]

/-! ## What no run does -/

/-- A writer that goes on after a refusal does what no run does: with no room at all it still comes
to its end, so the run would have to write nothing, but with room it writes the text. -/
theorem offer_ne_ofRun {text : String} (h : utf8 text ≠ []) (r : Run Unit) :
    (do let _ ← offer text) ≠ ofRun r := by
  intro heq
  have hexec (sink : Sink) : (ofRun r).exec sink {} =
      (.ok (), { past := (sink.offerAll [] (utf8 text)).1 }) := by
    rw [← heq, exec_bind, exec_offer]
    rfl
  have hnothing : utf8 r.output = [] := by
    by_contra hsome
    obtain ⟨messages, -, hfull⟩ := deliver_of_not_fits (Sink.limited_takesInAll 0) r
      (List.length_pos_iff.mpr hsome)
    rw [deliver, hexec] at hfull
    cases congrArg Delivery.ending hfull
  have hwhole := deliver_of_fits (Sink.unlimited_hasRoom _) r (Nat.le_refl _)
  rw [deliver, hexec, hnothing] at hwhole
  obtain ⟨past, hoffer, hcontent, -⟩ := Sink.offerAll_of_fits (Sink.unlimited_hasRoom _) []
    (utf8 text) (Nat.le_refl _)
  have hbytes : Sink.content past = [] := by
    rw [hoffer] at hwhole
    exact congrArg Delivery.bytes hwhole
  rw [hcontent] at hbytes
  exact h hbytes

end Writer

end Kconfig
