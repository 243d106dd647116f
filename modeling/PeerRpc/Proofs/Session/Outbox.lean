import PeerRpc.Proofs.Frame.Encoding
import PeerRpc.Session.Outbox

/-!
# The outbox, step by step

A sink takes the bytes of a write from the front (`Sink.write_cases`). The outbox writes what is left
of a frame or the next envelope at a time; `run_eq_steps` says that writing as much as the sink
takes is a number of these steps.
-/

namespace PeerRpc.Frame.Sink

/-- A sink takes bytes from the front: all of them, or it holds up the others, or it fails. -/
theorem write_cases (s : Sink) (bytes : List UInt8) :
    ∃ written left sink, bytes = written ++ left ∧ sink.bytes = s.bytes ++ written ∧
      (s.write bytes = (.done, sink) ∧ left = [] ∨ s.write bytes = (.blocked left, sink) ∨
        ∃ fault, s.write bytes = (.failed fault, sink)) := by
  fun_induction Sink.write s bytes with
  | case1 s => exact ⟨[], [], s, rfl, by simp, .inl ⟨rfl, rfl⟩⟩
  | case2 s b rest => exact ⟨[], b :: rest, s, rfl, by simp, .inr (.inl rfl)⟩
  | case3 s b rest => exact ⟨[], b :: rest, s, rfl, by simp, .inr (.inr ⟨_, rfl⟩)⟩
  | case4 s b rest =>
    refine ⟨b :: rest, [], s.take (b :: rest), by simp, ?_, .inl ⟨rfl, rfl⟩⟩
    simp [Sink.bytes, Sink.take]
  | case5 s b rest => exact ⟨[], b :: rest, s, rfl, by simp, .inr (.inr ⟨_, rfl⟩)⟩
  | case6 s b rest n _ _ _ ih =>
    obtain ⟨written, left, sink, hbytes, hsink, hcases⟩ := ih
    refine ⟨b :: rest.take n ++ written, left, sink, ?_, ?_, hcases⟩
    · rw [List.append_assoc, ← hbytes, List.cons_append, List.take_append_drop]
    · rw [hsink]
      simp [Sink.bytes, Sink.take]

@[simp] theorem bytes_shutdown (s : Sink) : s.shutdown.2.bytes = s.bytes := by
  unfold shutdown
  split
  · rfl
  · split <;> rfl

end PeerRpc.Frame.Sink

namespace PeerRpc.Session.Outbox

open Rpc (Envelope)

/-- Writes what is left of a frame or else the next envelope. With nothing to write, it shuts the
sink down if nothing more can come. -/
def step (o : Outbox) : Outbox :=
  if o.isActive then
    if o.unsent.isEmpty then
      match o.queue.toList with
      | [] => o.finish
      | e :: rest => { o with queue := rest.toArray }.send (Frame.encode e.bytes)
    else o.send o.unsent
  else o

theorem step_of_unsent {o : Outbox} (h : o.isActive = true) (hu : o.unsent.isEmpty = false) :
    o.step = o.send o.unsent := by
  rw [step, if_pos h, if_neg (by simp [hu])]

theorem step_of_empty {o : Outbox} (h : o.isReady = true) (hq : o.queue.toList = []) :
    o.step = o.finish := by
  rw [isReady, Bool.and_eq_true] at h
  rw [step, if_pos h.1, if_pos h.2, hq]

theorem step_of_queue {o : Outbox} {e : Envelope} {rest : List Envelope} (h : o.isReady = true)
    (hq : o.queue.toList = e :: rest) :
    o.step = { o with queue := rest.toArray }.send (Frame.encode e.bytes) := by
  rw [isReady, Bool.and_eq_true] at h
  rw [step, if_pos h.1, if_pos h.2, hq]

/-- A write puts bytes into the sink from the front. It leaves the others for later, or the outbox
stops. -/
theorem send_cases (o : Outbox) (bytes : List UInt8) :
    ∃ written left sink, bytes = written ++ left ∧ sink.bytes = o.sink.bytes ++ written ∧
      (o.send bytes = { o with unsent := left, sink } ∨
        ∃ fault, o.send bytes =
          { o with queue := #[], unsent := [], writing := .broken fault, sink }) := by
  obtain ⟨written, left, sink, hbytes, hsink, hcases⟩ := o.sink.write_cases bytes
  refine ⟨written, left, sink, hbytes, hsink, ?_⟩
  unfold send Frame.Sink.send
  rcases hcases with ⟨hw, rfl⟩ | hw | ⟨fault, hw⟩ <;> rw [hw]
  · dsimp only
    cases hf : sink.flush with
    | ok _ => exact .inl rfl
    | error fault => exact .inr ⟨fault, rfl⟩
  · exact .inl rfl
  · exact .inr ⟨fault, rfl⟩

theorem send_without_queue (o : Outbox) (queue : Array Envelope) (bytes : List UInt8) :
    { { o with queue }.send bytes with queue := #[] } = { o with queue := #[] }.send bytes := by
  unfold send
  dsimp only
  split <;> rfl

theorem sendAll_of_inactive {o : Outbox} (h : o.isActive = false) (es : List Envelope) :
    sendAll es o = o := by
  cases es with
  | nil => rfl
  | cons e rest => rw [sendAll, if_neg (by simp [isReady, h]), if_neg (by simp [h])]

/-- Writing the envelopes of the queue is a number of steps. -/
theorem sendAll_eq_steps (o : Outbox) (h : o.isActive = true) :
    ∃ n, sendAll o.queue.toList { o with queue := #[] } = step^[n] o := by
  induction hq : o.queue.toList generalizing o with
  | nil =>
    have hempty : o.queue = #[] := by simpa using hq
    exact ⟨0, by rw [sendAll, Function.iterate_zero_apply, ← hempty]⟩
  | cons e rest ih =>
    cases hu : o.unsent.isEmpty with
    | false =>
      have hqueue : o.queue = (e :: rest).toArray := by rw [← hq, Array.toArray_toList]
      refine ⟨0, ?_⟩
      rw [sendAll, if_neg, if_pos, ← hqueue]
      · rfl
      · exact h
      · simp [isReady, hu]
    | true =>
      have hready : o.isReady = true := by rw [isReady, h, hu, Bool.and_self]
      have hstep := step_of_queue hready hq
      have hready' : ({ o with queue := #[] } : Outbox).isReady = true := hready
      have hsend : ({ o with queue := #[] } : Outbox).send (Frame.encode e.bytes) =
          { o.step with queue := #[] } := by rw [hstep, send_without_queue]
      rw [sendAll, if_pos hready', hsend]
      obtain ⟨-, left, sink, -, -, hcases | ⟨fault, hcases⟩⟩ :=
        send_cases { o with queue := rest.toArray } (Frame.encode e.bytes)
      · have hnext := ih o.step (by rw [hstep, hcases]; exact h) (by rw [hstep, hcases])
        obtain ⟨n, hn⟩ := hnext
        exact ⟨n + 1, by rw [hn, Function.iterate_succ_apply]⟩
      · refine ⟨1, ?_⟩
        rw [Function.iterate_one, hstep, hcases]
        exact sendAll_of_inactive rfl rest

theorem finish_eq_steps (o : Outbox) : ∃ n, o.finish = step^[n] o := by
  cases h : o.isReady && o.queue.isEmpty with
  | true =>
    rw [Bool.and_eq_true, Array.isEmpty_iff] at h
    exact ⟨1, by rw [Function.iterate_one, step_of_empty h.1 (by simp [h.2])]⟩
  | false => exact ⟨0, by rw [finish, h, Bool.false_and]; rfl⟩

/-- Writing as much as the sink takes is a number of steps. -/
theorem run_eq_steps (o : Outbox) : ∃ n, o.run = step^[n] o := by
  cases h : o.isActive with
  | false => exact ⟨0, by rw [run, if_neg (by simp [h]), Function.iterate_zero_apply]⟩
  | true =>
    obtain ⟨a, ha, hactive⟩ : ∃ a, (if o.unsent.isEmpty then o else o.send o.unsent) = step^[a] o ∧
        ((step^[a] o).isActive = true ∨ (step^[a] o).queue = #[]) := by
      cases hu : o.unsent.isEmpty with
      | true => exact ⟨0, rfl, .inl h⟩
      | false =>
        refine ⟨1, ?_⟩
        rw [Function.iterate_one, step_of_unsent h hu]
        refine ⟨rfl, ?_⟩
        obtain ⟨-, left, sink, -, -, hcases | ⟨fault, hcases⟩⟩ := send_cases o o.unsent
        · exact .inl (by rw [hcases]; exact h)
        · exact .inr (by rw [hcases])
    rw [run, if_pos h]
    dsimp only
    rw [ha]
    obtain ⟨b, hb⟩ : ∃ b, sendAll (step^[a] o).queue.toList { step^[a] o with queue := #[] } =
        step^[b] (step^[a] o) := by
      rcases hactive with hactive | hempty
      · exact sendAll_eq_steps _ hactive
      · exact ⟨0, by rw [hempty, sendAll, Function.iterate_zero_apply, ← hempty]⟩
    obtain ⟨c, hc⟩ := finish_eq_steps (step^[b] (step^[a] o))
    exact ⟨c + (b + a), by rw [hb, hc, Function.iterate_add_apply, Function.iterate_add_apply]⟩

/-! ## What is written -/

/-- How an outbox can change without getting an envelope. -/
inductive Quiet : Outbox → Outbox → Prop
  | same (o : Outbox) : Quiet o o
  | closeOff (o : Outbox) : Quiet o o.closeOff
  | abandon (o : Outbox) : Quiet o o.closeOff.abandon
  | step (o : Outbox) : Quiet o o.step
  | setMode (o : Outbox) (mode : Frame.SinkMode) :
    Quiet o { o with sink := { o.sink with mode } }

/-- The bytes that are written when everything has been written that is in the outbox now. -/
def total (o : Outbox) : List UInt8 :=
  o.sink.bytes ++ o.unsent ++ Frame.stream (o.queue.toList.map Envelope.bytes)

variable {o o' : Outbox}

theorem bytes_finish (o : Outbox) : o.finish.sink.bytes = o.sink.bytes := by
  unfold finish
  split
  · exact o.sink.bytes_shutdown
  · rfl

theorem total_finish (o : Outbox) : o.finish.total = o.total := by
  unfold total
  rw [bytes_finish]
  unfold finish
  split <;> rfl

/-- A write takes bytes from what is to be written to what is written, or the outbox stops. -/
theorem send_total (o : Outbox) (bytes : List UInt8) :
    o.sink.bytes <+: (o.send bytes).sink.bytes ∧
      (o.send bytes).sink.bytes <+: o.sink.bytes ++ bytes ∧
      (o.send bytes).queue.size ≤ o.queue.size ∧
      ((o.send bytes).isActive = true → (o.send bytes).total =
        o.sink.bytes ++ bytes ++ Frame.stream (o.queue.toList.map Envelope.bytes)) := by
  obtain ⟨written, left, sink, rfl, hsink, hs | ⟨fault, hs⟩⟩ := send_cases o bytes <;> rw [hs]
  · refine ⟨hsink ▸ List.prefix_append _ _, ?_, le_rfl, fun _ => ?_⟩
    · rw [hsink, ← List.append_assoc]
      exact List.prefix_append _ _
    · simp only [total, hsink, List.append_assoc]
  · refine ⟨hsink ▸ List.prefix_append _ _, ?_, Nat.zero_le _, fun h => absurd h (by simp [isActive])⟩
    rw [hsink, ← List.append_assoc]
    exact List.prefix_append _ _

/-- A step takes bytes from what is to be written to what is written, or the outbox stops. -/
theorem step_total (o : Outbox) :
    o.sink.bytes <+: o.step.sink.bytes ∧ o.step.queue.size ≤ o.queue.size ∧
      (o.isActive = true → o.step.sink.bytes <+: o.total ∧
        (o.step.isActive = true → o.step.total = o.total)) := by
  by_cases h : o.isActive = true
  swap
  · rw [step, if_neg h]
    exact ⟨List.prefix_rfl, le_rfl, fun ha => absurd ha h⟩
  by_cases hu : o.unsent.isEmpty = true
  swap
  · obtain ⟨hmore, hle, hsize, htotal⟩ := send_total o o.unsent
    rw [step_of_unsent h (by simpa using hu)]
    exact ⟨hmore, hsize, fun _ => ⟨hle.trans (List.prefix_append _ _), htotal⟩⟩
  have hready : o.isReady = true := by rw [isReady, h, hu, Bool.and_self]
  have hnil : o.unsent = [] := List.isEmpty_iff.1 hu
  cases hq : o.queue.toList with
  | nil =>
    have hsize : o.finish.queue = o.queue := by
      unfold finish
      split <;> rfl
    rw [step_of_empty hready hq, bytes_finish, total_finish, hsize]
    refine ⟨List.prefix_rfl, le_rfl, fun _ => ⟨?_, fun _ => rfl⟩⟩
    rw [total, List.append_assoc]
    exact List.prefix_append _ _
  | cons e rest =>
    have hlength : o.queue.size = rest.length + 1 := by rw [← Array.length_toList, hq, List.length_cons]
    have htotal : o.total = o.sink.bytes ++ Frame.encode e.bytes ++
        Frame.stream (rest.map Envelope.bytes) := by
      rw [total, hnil, hq, List.map_cons, Frame.stream_cons]
      simp
    obtain ⟨hmore, hle, hsize, hs⟩ := send_total { o with queue := rest.toArray }
      (Frame.encode e.bytes)
    rw [step_of_queue hready hq]
    refine ⟨hmore, hsize.trans ?_, fun _ => ⟨?_, fun ha => ?_⟩⟩
    · simp [hlength]
    · rw [htotal]
      exact hle.trans (List.prefix_append _ _)
    · rw [hs ha, htotal]

theorem Quiet.size_le (h : Quiet o o') : o'.queue.size ≤ o.queue.size := by
  cases h with
  | same | closeOff | setMode => exact le_rfl
  | abandon =>
    unfold Outbox.abandon
    split
    · exact Nat.zero_le _
    · exact le_rfl
  | step => exact (step_total o).2.1

theorem Quiet.bytes_isPrefix (h : Quiet o o') : o.sink.bytes <+: o'.sink.bytes := by
  cases h with
  | same | closeOff | setMode => exact List.prefix_rfl
  | abandon =>
    unfold Outbox.abandon
    split <;> exact List.prefix_rfl
  | step => exact (step_total o).1

/-- An outbox that has stopped stays so. -/
theorem Quiet.isActive_of (h : Quiet o o') (ha : o'.isActive = true) : o.isActive = true := by
  cases h with
  | same | closeOff | setMode => exact ha
  | abandon =>
    unfold Outbox.abandon at ha
    split_ifs at ha with hactive
    · exact hactive
    · exact ha
  | step =>
    by_contra hactive
    rw [Outbox.step, if_neg hactive] at ha
    exact hactive ha

/-- An outbox that has got some frames: what is written is a part of them from the front, and as
long as it is active the others are still there. -/
structure Carries (o : Outbox) (frames : List UInt8) : Prop where
  written : o.sink.bytes <+: frames
  total : o.isActive = true → o.total = frames

theorem Carries.quiet {frames : List UInt8} (h : o.Carries frames) (hq : Quiet o o') :
    o'.Carries frames := by
  cases hq with
  | same => exact h
  | closeOff => exact ⟨h.written, h.total⟩
  | setMode => exact ⟨h.written, h.total⟩
  | abandon =>
    unfold Outbox.abandon
    split_ifs with ha
    · exact ⟨h.written, fun hb => absurd hb (by simp [isActive])⟩
    · exact ⟨h.written, h.total⟩
  | step =>
    by_cases ha : o.isActive = true
    · obtain ⟨hle, ht⟩ := (step_total o).2.2 ha
      rw [h.total ha] at hle ht
      exact ⟨hle, ht⟩
    · rw [step, if_neg ha]
      exact h

theorem Carries.put {frames : List UInt8} (h : o.Carries frames) (ha : o.isActive = true)
    (e : Envelope) : (o.put e).Carries (frames ++ Frame.encode e.bytes) := by
  have ht := h.total ha
  rw [Outbox.put, if_pos ha]
  refine ⟨h.written.trans (List.prefix_append _ _), fun _ => ?_⟩
  rw [← ht]
  simp [Outbox.total]

end PeerRpc.Session.Outbox
