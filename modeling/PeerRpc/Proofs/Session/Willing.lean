import PeerRpc.Proofs.Session.Outbox

/-!
# Sinks that take everything

A willing sink takes all bytes that are written, perhaps late and in small pieces. An outbox before
such a sink never breaks: what it has got is written or is still there, and when it has shut the
sink down, all of it is written (`Outbox.Flows`). Once nothing more can come and the sink holds
nothing up, it gets that far (`Outbox.run_of_willing`).
-/

namespace PeerRpc.Frame

/-- Whether a sink takes, at once or later, what is written. -/
def SinkMode.takes : SinkMode → Bool
  | .accepting | .failingShutdown | .blocking => true
  | .failingWrite | .full | .failingFlush => false

namespace Sink

/-- A sink that takes everything, at least one byte in a piece. -/
structure Willing (s : Sink) : Prop where
  mode : s.mode.takes = true
  piece : s.piece ≠ some 0

variable {s : Sink}

theorem Willing.flush (h : s.Willing) : s.flush = .ok () := by
  have hmode := h.mode
  unfold Sink.flush
  split
  · rename_i hm
    rw [hm] at hmode
    cases hmode
  · rfl

theorem Willing.room (h : s.Willing) : s.room = s.piece := by
  have hmode := h.mode
  unfold Sink.room
  split
  · rename_i hm
    rw [hm] at hmode
    cases hmode
  · rfl

theorem Willing.take (h : s.Willing) (bytes : List UInt8) : (s.take bytes).Willing :=
  ⟨h.mode, h.piece⟩

theorem Willing.shutdown (h : s.Willing) : s.shutdown.2.Willing := by
  unfold Sink.shutdown
  rw [h.flush]
  dsimp only
  split
  · exact h
  · exact ⟨h.mode, h.piece⟩

/-- A write to a willing sink does not fail, and leaves nothing unless the sink holds it up. -/
theorem Willing.write (h : s.Willing) (bytes : List UInt8) :
    ∃ sink : Sink, sink.Willing ∧ sink.mode = s.mode ∧
      (s.write bytes = (.done, sink) ∨
        s.mode = .blocking ∧ s.write bytes = (.blocked bytes, sink)) := by
  fun_induction Sink.write s bytes with
  | case1 s => exact ⟨s, h, rfl, .inl rfl⟩
  | case2 s b rest hm => exact ⟨s, h, rfl, .inr ⟨hm, rfl⟩⟩
  | case3 s b rest hm =>
    have hmode := h.mode
    rw [hm] at hmode
    cases hmode
  | case4 s b rest => exact ⟨_, h.take _, rfl, .inl rfl⟩
  | case5 s b rest hroom => exact absurd (h.room.symm.trans hroom) h.piece
  | case6 s b rest n _ hblocking _ ih =>
    obtain ⟨sink, hsink, hmode, hdone | ⟨hm, -⟩⟩ := ih (h.take _)
    · exact ⟨sink, hsink, hmode, .inl hdone⟩
    · exact absurd hm hblocking

end Sink

end PeerRpc.Frame

namespace PeerRpc.Session.Outbox

open Rpc (Envelope)

variable {o : Outbox} {frames : List UInt8}

/-- Writing to a willing sink leaves nothing unless the sink holds it up. -/
theorem send_of_willing (h : o.sink.Willing) (bytes : List UInt8) :
    ∃ left sink, sink.Willing ∧ sink.mode = o.sink.mode ∧
      o.send bytes = { o with unsent := left, sink } ∧
      (left = [] ∨ o.sink.mode = .blocking) := by
  obtain ⟨sink, hsink, hmode, hdone | ⟨hm, hblocked⟩⟩ := h.write bytes
  · refine ⟨[], sink, hsink, hmode, ?_, .inl rfl⟩
    rw [send, Frame.Sink.send, hdone]
    dsimp only
    rw [hsink.flush]
  · refine ⟨bytes, sink, hsink, hmode, ?_, .inr hm⟩
    rw [send, Frame.Sink.send, hblocked]

/-- A step before a willing sink leaves the outbox active, or shuts the sink down when everything is
written and nothing more can come. -/
theorem step_of_willing (h : o.sink.Willing) (ha : o.isActive = true) :
    o.step.sink.Willing ∧ o.step.expecting = o.expecting ∧
      (o.step.isActive = true ∨ o.step.writing = .complete ∧ o.expecting = false ∧
        o.step.sink.bytes = o.total) := by
  cases hu : o.unsent.isEmpty with
  | false =>
    obtain ⟨left, sink, hsink, -, hsend, -⟩ := send_of_willing h o.unsent
    rw [step_of_unsent ha hu, hsend]
    exact ⟨hsink, rfl, .inl ha⟩
  | true =>
    have hready : o.isReady = true := by rw [isReady, ha, hu, Bool.and_self]
    cases hq : o.queue.toList with
    | cons e rest =>
      obtain ⟨left, sink, hsink, -, hsend, -⟩ :=
        send_of_willing (o := { o with queue := rest.toArray }) h (Frame.encode e.bytes)
      rw [step_of_queue hready hq, hsend]
      exact ⟨hsink, rfl, .inl ha⟩
    | nil =>
      have htotal : o.total = o.sink.bytes := by
        rw [total, List.isEmpty_iff.1 hu, hq]
        simp [Frame.stream_nil]
      rw [step_of_empty hready hq, bytes_finish, htotal]
      unfold finish
      split_ifs with hfinish
      · simp only [Bool.and_eq_true, Bool.not_eq_true'] at hfinish
        exact ⟨h.shutdown, rfl, .inr ⟨rfl, hfinish.2, rfl⟩⟩
      · exact ⟨h, rfl, .inl ha⟩

/-- An outbox before a willing sink has got some frames, and has lost none of them unless it was
stopped from outside. -/
structure Flows (o : Outbox) (frames : List UInt8) : Prop where
  willing : o.sink.Willing
  carries : o.Carries frames
  unbroken : ∀ fault, o.writing ≠ .broken fault
  complete : o.writing = .complete → o.sink.bytes = frames

theorem ne_broken_of_isActive (ha : o.isActive = true) (fault : Frame.ChannelFault) :
    o.writing ≠ .broken fault := by
  intro hw
  rw [isActive, hw] at ha
  cases ha

theorem Flows.step (h : o.Flows frames) : o.step.Flows frames := by
  have hcarries := h.carries.quiet (.step o)
  by_cases ha : o.isActive = true
  · obtain ⟨hsink, -, hactive | ⟨hcomplete, -, hbytes⟩⟩ := step_of_willing h.willing ha
    · refine ⟨hsink, hcarries, ne_broken_of_isActive hactive, fun hw => ?_⟩
      rw [isActive, hw] at hactive
      cases hactive
    · refine ⟨hsink, hcarries, fun fault hw => ?_, fun _ => hbytes.trans (h.carries.total ha)⟩
      cases hcomplete.symm.trans hw
  · rw [Outbox.step, if_neg ha]
    exact h

theorem Flows.run (h : o.Flows frames) : o.run.Flows frames := by
  obtain ⟨n, hn⟩ := o.run_eq_steps
  rw [hn]
  clear hn
  induction n generalizing o with
  | zero => exact h
  | succ n ih =>
    rw [Function.iterate_succ_apply]
    exact ih h.step

theorem Flows.complete_of_stopped (h : o.Flows frames) (hw : o.writing ≠ .abandoned)
    (ha : o.isActive = false) : o.writing = .complete := by
  cases hwriting : o.writing with
  | active =>
    rw [isActive, hwriting] at ha
    cases ha
  | complete => rfl
  | broken fault => exact absurd hwriting (h.unbroken fault)
  | abandoned => exact absurd hwriting hw

theorem Flows.put (h : o.Flows frames) (ha : o.isActive = true) (e : Envelope) :
    (o.put e).Flows (frames ++ Frame.encode e.bytes) := by
  have hcarries := h.carries.put ha e
  rw [Outbox.put, if_pos ha] at hcarries ⊢
  refine ⟨h.willing, hcarries, h.unbroken, fun hw => ?_⟩
  have hw : o.writing = .complete := hw
  rw [isActive, hw] at ha
  cases ha

theorem Flows.closeOff (h : o.Flows frames) : o.closeOff.Flows frames :=
  ⟨h.willing, h.carries.quiet (.closeOff o), h.unbroken, h.complete⟩

theorem Flows.setMode (h : o.Flows frames) {mode : Frame.SinkMode} (hm : mode.takes = true) :
    Flows { o with sink := { o.sink with mode } } frames :=
  ⟨⟨hm, h.willing.piece⟩, h.carries.quiet (.setMode o mode), h.unbroken, h.complete⟩

theorem Flows.abandon (h : o.Flows frames) : o.closeOff.abandon.Flows frames := by
  have hcarries := h.carries.quiet (.abandon o)
  unfold Outbox.abandon at hcarries ⊢
  split_ifs at hcarries ⊢ with ha
  · exact ⟨h.willing, hcarries, nofun, nofun⟩
  · exact h.closeOff

/-! ## Writing everything -/

/-- All envelopes are written to a willing sink that holds nothing up. -/
theorem sendAll_of_willing (h : o.sink.Willing) (hm : o.sink.mode ≠ .blocking)
    (hready : o.isReady = true) (es : List Envelope) :
    ∃ sink, sendAll es o = { o with unsent := [], sink } := by
  induction es generalizing o with
  | nil =>
    rw [isReady, Bool.and_eq_true, List.isEmpty_iff] at hready
    exact ⟨o.sink, by rw [sendAll, ← hready.2]⟩
  | cons e rest ih =>
    obtain ⟨left, sink, hsink, hmode, hsend, hleft⟩ := send_of_willing h (Frame.encode e.bytes)
    obtain rfl := hleft.resolve_right hm
    rw [isReady, Bool.and_eq_true] at hready
    have hnext : ({ o with unsent := [], sink } : Outbox).isReady = true := by
      rw [isReady, Bool.and_eq_true]
      exact ⟨hready.1, rfl⟩
    rw [sendAll, if_pos (by rw [isReady, hready.1, hready.2, Bool.and_self]), hsend]
    exact ih (o := { o with unsent := [], sink }) hsink (hmode ▸ hm) hnext

/-- With nothing more to come, an outbox writes everything to a willing sink that holds nothing up,
and shuts it down. -/
theorem run_of_willing (h : o.sink.Willing) (hm : o.sink.mode ≠ .blocking)
    (ha : o.isActive = true) (he : o.expecting = false) : o.run.writing = .complete := by
  obtain ⟨sink, hsink, hmode, hbegun⟩ : ∃ sink : Frame.Sink, sink.Willing ∧
      sink.mode = o.sink.mode ∧
      (if o.unsent.isEmpty then o else o.send o.unsent) = { o with unsent := [], sink } := by
    by_cases hu : o.unsent.isEmpty = true
    · refine ⟨o.sink, h, rfl, ?_⟩
      rw [if_pos hu, ← List.isEmpty_iff.1 hu]
    · obtain ⟨left, sink, hsink, hmode, hsend, hleft⟩ := send_of_willing h o.unsent
      obtain rfl := hleft.resolve_right hm
      exact ⟨sink, hsink, hmode, by rw [if_neg hu, hsend]⟩
  have hready : ({ o with queue := #[], unsent := [], sink } : Outbox).isReady = true := by
    rw [isReady, Bool.and_eq_true]
    exact ⟨ha, rfl⟩
  obtain ⟨sink', hall⟩ := sendAll_of_willing (o := { o with queue := #[], unsent := [], sink })
    hsink (hmode ▸ hm) hready o.queue.toList
  rw [run, if_pos ha]
  dsimp only
  rw [hbegun, hall, finish, if_pos]
  rw [isReady, he, Bool.and_eq_true, Bool.and_eq_true, Bool.and_eq_true]
  exact ⟨⟨⟨ha, rfl⟩, rfl⟩, rfl⟩

end PeerRpc.Session.Outbox
