import PeerRpc.Proofs.Session.Outbox

/-!
# Two outboxes before the same sink

Of two outboxes one *trails* the other one if it has no less to write, and the sinks behave in the
same way. It stays so when both get the same envelopes and when both write, provided that a write
that breaks the second breaks the first (`Trails.step`); and when the one that trails gets
an envelope more, or writes what it has more than the other one (`Trails.put_right`,
`Trails.step_right`).
-/

namespace PeerRpc.Session

open Rpc (Envelope)
open PeerRpc.Frame (ChannelFault Sink SinkMode)

namespace Outbox

/-- What a sink does with the bytes of a write. -/
inductive Verdict where
  | takes
  | holds
  | fails (fault : ChannelFault)

/-- What a sink that sets no bound to the pieces does with the bytes of a write. -/
def verdict : SinkMode → Verdict
  | .accepting | .failingShutdown => .takes
  | .blocking => .holds
  | .failingWrite => .fails (.io "write failed")
  | .full => .fails (.io "write zero")
  | .failingFlush => .fails (.io "flush failed")

/-- The number of frames that are not written in full. -/
def load (o : Outbox) : Nat :=
  (if o.unsent.isEmpty then 0 else 1) + o.queue.size

/-- The outbox of a session at work. Its sink sets no bound to the pieces. -/
structure AtWork (o : Outbox) : Prop where
  expecting : o.expecting = true
  piece : o.sink.piece = none

variable {o o' : Outbox}

theorem isActive_iff : o.isActive = true ↔ o.writing = .active := by
  unfold isActive
  cases o.writing <;> simp

/-- A write without a fault leaves the frame to be written or not, as the sink says; a fault breaks
the outbox. -/
theorem send_of_verdict (hp : o.sink.piece = none) {bytes : List UInt8} (hb : bytes ≠ []) :
    ∃ sink : Sink, sink.mode = o.sink.mode ∧ sink.piece = none ∧ o.send bytes =
      match verdict o.sink.mode with
      | .takes => { o with unsent := [], sink }
      | .holds => { o with unsent := bytes, sink }
      | .fails fault => { o with queue := #[], unsent := [], writing := .broken fault, sink } := by
  obtain ⟨b, rest, rfl⟩ := List.exists_cons_of_ne_nil hb
  have hroom : o.sink.mode ≠ .full → o.sink.room = none := by
    intro h
    unfold Sink.room
    split
    · exact absurd ‹_› h
    · exact hp
  unfold send Sink.send
  rw [Sink.write]
  cases hm : o.sink.mode with
  | accepting | failingShutdown =>
    refine ⟨o.sink.take (b :: rest), hm, hp, ?_⟩
    simp [hroom (by simp [hm]), Sink.flush, Sink.take, hm, verdict]
  | blocking => exact ⟨o.sink, hm, hp, rfl⟩
  | failingWrite => exact ⟨o.sink, hm, hp, rfl⟩
  | full =>
    refine ⟨o.sink, hm, hp, ?_⟩
    simp [Sink.room, hm, verdict]
  | failingFlush =>
    refine ⟨o.sink.take (b :: rest), hm, hp, ?_⟩
    simp [hroom (by simp [hm]), Sink.flush, Sink.take, hm, verdict]

/-- With something to write, an active outbox writes a frame, is held up or breaks, as the sink
says. -/
theorem step_of_verdict (hp : o.sink.piece = none) (ha : o.writing = .active) (hl : 0 < o.load) :
    o.step.sink.mode = o.sink.mode ∧ o.step.sink.piece = none ∧ o.step.expecting = o.expecting ∧
      match verdict o.sink.mode with
      | .takes => o.step.writing = .active ∧ o.step.load + 1 = o.load
      | .holds => o.step.writing = .active ∧ o.step.load = o.load
      | .fails fault => o.step.writing = .broken fault := by
  have hactive := isActive_iff.2 ha
  cases hu : o.unsent.isEmpty with
  | false =>
    have hne : o.unsent ≠ [] := by simpa using hu
    obtain ⟨sink, hmode, hpiece, hsend⟩ := send_of_verdict hp hne
    rw [step_of_unsent hactive hu, hsend]
    cases verdict o.sink.mode with
    | takes => exact ⟨hmode, hpiece, rfl, ha, by simp [load, hu, Nat.add_comm]⟩
    | holds => exact ⟨hmode, hpiece, rfl, ha, rfl⟩
    | fails fault => exact ⟨hmode, hpiece, rfl, rfl⟩
  | true =>
    have hready : o.isReady = true := by rw [isReady, hactive, hu, Bool.and_self]
    have hload : o.load = o.queue.toList.length := by simp [load, hu]
    cases hq : o.queue.toList with
    | nil =>
      rw [hload, hq] at hl
      exact absurd hl (Nat.lt_irrefl 0)
    | cons e rest =>
      have hne : Frame.encode e.bytes ≠ [] :=
        List.ne_nil_of_length_pos (Frame.encode_length_pos e.bytes)
      have hcons : (Frame.encode e.bytes).isEmpty = false := by simpa using hne
      obtain ⟨sink, hmode, hpiece, hsend⟩ :=
        send_of_verdict (o := { o with queue := rest.toArray }) hp hne
      rw [step_of_queue hready hq, hsend, hload, hq, List.length_cons]
      cases verdict o.sink.mode with
      | takes => exact ⟨hmode, hpiece, rfl, ha, by simp [load]⟩
      | holds => exact ⟨hmode, hpiece, rfl, ha, by simp [load, hcons, Nat.add_comm]⟩
      | fails fault => exact ⟨hmode, hpiece, rfl, rfl⟩

/-- With nothing to write, the outbox of a session at work stays as it is. -/
theorem step_of_idle (h : AtWork o) (hl : o.load = 0 ∨ o.writing ≠ .active) : o.step = o := by
  by_cases ha : o.writing = .active
  · obtain ⟨hu, hq⟩ := Nat.add_eq_zero_iff.1 (hl.resolve_right (not_not_intro ha))
    have hempty : o.unsent.isEmpty = true := by
      by_contra hne
      rw [if_neg hne] at hu
      cases hu
    have hready : o.isReady = true := by rw [isReady, isActive_iff.2 ha, hempty, Bool.and_self]
    rw [step_of_empty hready (by simpa using hq), finish, h.expecting]
    simp
  · rw [step, if_neg (mt isActive_iff.1 ha)]

theorem AtWork.step (h : AtWork o) : AtWork o.step := by
  by_cases hidle : o.load = 0 ∨ o.writing ≠ .active
  · rw [step_of_idle h hidle]
    exact h
  · obtain ⟨hload, ha⟩ := not_or.1 hidle
    obtain ⟨-, hpiece, hexpecting, -⟩ :=
      step_of_verdict h.piece (not_not.1 ha) (Nat.pos_of_ne_zero hload)
    exact ⟨hexpecting.trans h.expecting, hpiece⟩

theorem AtWork.mode_step (h : AtWork o) : o.step.sink.mode = o.sink.mode := by
  by_cases hidle : o.load = 0 ∨ o.writing ≠ .active
  · rw [step_of_idle h hidle]
  · obtain ⟨hload, ha⟩ := not_or.1 hidle
    exact (step_of_verdict h.piece (not_not.1 ha) (Nat.pos_of_ne_zero hload)).1

/-! ## An outbox that trails another one -/

/-- The second of two outboxes has no less to write than the first, and their sinks behave in the
same way. -/
structure Trails (o o' : Outbox) : Prop where
  left : AtWork o
  right : AtWork o'
  mode : o'.sink.mode = o.sink.mode
  writing : o'.writing = o.writing
  load : o.writing = .active → o.load ≤ o'.load

theorem load_put (ha : o.writing = .active) (e : Envelope) : (o.put e).load = o.load + 1 := by
  rw [put, if_pos (isActive_iff.2 ha)]
  simp [load, Nat.add_assoc]

theorem AtWork.put (h : AtWork o) (e : Envelope) : AtWork (o.put e) := by
  unfold Outbox.put
  split_ifs
  · exact ⟨h.expecting, h.piece⟩
  · exact h

theorem writing_put (o : Outbox) (e : Envelope) : (o.put e).writing = o.writing := by
  unfold put
  split_ifs <;> rfl

theorem mode_put (o : Outbox) (e : Envelope) : (o.put e).sink.mode = o.sink.mode := by
  unfold put
  split_ifs <;> rfl

namespace Trails

theorem put (h : Trails o o') (e : Envelope) : Trails (o.put e) (o'.put e) where
  left := h.left.put e
  right := h.right.put e
  mode := by rw [mode_put, mode_put, h.mode]
  writing := by rw [writing_put, writing_put, h.writing]
  load ha := by
    rw [writing_put] at ha
    rw [load_put ha, load_put (h.writing.trans ha)]
    exact Nat.succ_le_succ (h.load ha)

theorem put_right (h : Trails o o') (e : Envelope) : Trails o (o'.put e) where
  left := h.left
  right := h.right.put e
  mode := by rw [mode_put, h.mode]
  writing := by rw [writing_put, h.writing]
  load ha := by
    rw [load_put (h.writing.trans ha)]
    exact (h.load ha).trans (Nat.le_succ _)

theorem setMode (h : Trails o o') (mode : SinkMode) :
    Trails { o with sink := { o.sink with mode } } { o' with sink := { o'.sink with mode } } where
  left := ⟨h.left.expecting, h.left.piece⟩
  right := ⟨h.right.expecting, h.right.piece⟩
  mode := rfl
  writing := h.writing
  load := h.load

/-- Both outboxes write. A fault that breaks the second must break the first; the converse holds
because the second has something to write whenever the first has. -/
theorem step (h : Trails o o') (hw : o'.step.isActive = false → o.step.isActive = false) :
    Trails o.step o'.step := by
  have hboth : o'.step.writing = o.step.writing ∧
      (o.step.writing = .active → o.step.load ≤ o'.step.load) := by
    by_cases ha : o.writing = .active
    swap
    · have ha' : o'.writing ≠ .active := h.writing ▸ ha
      rw [step_of_idle h.left (.inr ha), step_of_idle h.right (.inr ha')]
      exact ⟨h.writing, h.load⟩
    by_cases hl : o.load = 0
    · rw [step_of_idle h.left (.inl hl)] at hw ⊢
      have hactive : o'.step.writing = .active := by
        refine isActive_iff.1 (Bool.of_not_eq_false fun hbroken => ?_)
        exact absurd (isActive_iff.2 ha) (Bool.eq_false_iff.1 (hw hbroken))
      exact ⟨hactive.trans ha.symm, fun _ => hl ▸ Nat.zero_le _⟩
    · have hle := h.load ha
      have hpos := Nat.pos_of_ne_zero hl
      obtain ⟨-, -, -, hv⟩ := step_of_verdict h.left.piece ha hpos
      obtain ⟨-, -, -, hv'⟩ :=
        step_of_verdict h.right.piece (h.writing.trans ha) (hpos.trans_le hle)
      rw [h.mode] at hv'
      cases hverdict : verdict o.sink.mode with
      | takes | holds =>
        rw [hverdict] at hv hv'
        exact ⟨hv'.1.trans hv.1.symm, fun _ => by have := hv.2; have := hv'.2; omega⟩
      | fails fault =>
        rw [hverdict] at hv hv'
        exact ⟨hv'.trans hv.symm, fun hactive => absurd (hv.symm.trans hactive) nofun⟩
  exact ⟨h.left.step, h.right.step, by rw [h.left.mode_step, h.right.mode_step, h.mode],
    hboth.1, hboth.2⟩

/-- The second outbox writes what it has more than the first. -/
theorem step_right (h : Trails o o') (hl : o.load < o'.load) (ha : o'.step.isActive = true) :
    Trails o o'.step := by
  have hright : o'.writing = .active := isActive_iff.1 ((Quiet.step o').isActive_of ha)
  obtain ⟨hmode, -, -, hv⟩ := step_of_verdict h.right.piece hright (Nat.zero_lt_of_lt hl)
  refine ⟨h.left, h.right.step, hmode.trans h.mode, ?_, fun _ => ?_⟩
  · rw [isActive_iff.1 ha, ← h.writing, hright]
  · cases hverdict : verdict o'.sink.mode with
    | takes | holds =>
      rw [hverdict] at hv
      have := hv.2
      omega
    | fails fault =>
      rw [hverdict] at hv
      rw [isActive_iff.1 ha] at hv
      cases hv

end Trails

end Outbox

end PeerRpc.Session
