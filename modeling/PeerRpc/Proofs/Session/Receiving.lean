import PeerRpc.Proofs.Frame.Excess
import PeerRpc.Proofs.Session.Desk
import PeerRpc.Proofs.Session.Settlement

/-!
# What a session receives

If the bytes that arrive are the beginning of a stream of frames, the payloads that the task handles
are the first ones of the stream, in their order and each of them once (`got_isPrefix`).
-/

namespace PeerRpc.Session

open PeerRpc.Frame (stream)

/-- The bytes that arrive with some actions. -/
def arrived : List Action → List UInt8
  | [] => []
  | .arrive bytes :: actions => bytes ++ arrived actions
  | _ :: actions => arrived actions

theorem arrived_append (a b : List Action) : arrived (a ++ b) = arrived a ++ arrived b := by
  fun_induction arrived a with
  | case1 => rfl
  | case2 bytes actions ih => rw [List.cons_append, arrived, ih, List.append_assoc]
  | case3 a actions h ih =>
    rw [List.cons_append, arrived, ih]
    exact h

theorem arrived_concat {a : Action} (h : ∀ bytes, a ≠ .arrive bytes) (actions : List Action) :
    arrived (actions ++ [a]) = arrived actions := by
  have hnil : arrived [a] = [] := by
    cases a <;> first | rfl | exact absurd rfl (h _)
  rw [arrived_append, hnil, List.append_nil]

theorem arrived_concat_arrive (actions : List Action) (bytes : List UInt8) :
    arrived (actions ++ [.arrive bytes]) = arrived actions ++ bytes := by
  rw [arrived_append, arrived, arrived, List.append_nil]

namespace State

variable {R N : Type}

/-- The payloads that are handled in a run. -/
def got (s : State R N) (actions : List Action) : List (List UInt8) :=
  s.along (fun s a => (s.handled a).toList) actions

theorem got_concat (s : State R N) (actions : List Action) (a : Action) :
    s.got (actions ++ [a]) = s.got actions ++ ((s.run actions).handled a).toList :=
  along_concat _ s actions a

/-- A payload that is handled at a position is among those that are handled in the run. -/
theorem mem_got {s : State R N} {actions : List Action} {i : Nat} {payload : List UInt8}
    (ha : actions[i]? = some .receive)
    (hp : (s.run (actions.take i)).handled .receive = some payload) : payload ∈ s.got actions :=
  (mem_along _).2 ⟨i, .receive, ha, by simp [hp]⟩

variable {s : State R N}

theorem handled_of_ne {a : Action} (h : a ≠ .receive) : s.handled a = none := by
  cases a <;> first | rfl | exact absurd rfl h

theorem handled_of_payload {payload : List UInt8} {reader : Frame.Reader}
    (hrun : s.isRunning = true) (h : s.reader.next = (.payload payload, reader)) :
    s.handled .receive = some payload := by
  rw [handled, if_pos hrun, h]

theorem handled_of_other (h : ∀ payload, s.reader.next.1 ≠ .payload payload) :
    s.handled .receive = none := by
  rw [handled]
  split_ifs
  · split
    · rename_i payload reader hn
      exact absurd (congrArg Prod.fst hn) (h payload)
    · rfl
  · rfl

theorem isRunning_stop (s : State R N) (reason : Stop) : (s.stop reason).isRunning = false :=
  congrArg Core.running (core_stop s reason)

/-- The task stops at the end and at a fault of the source. -/
theorem isRunning_receiveNext (hp : ∀ payload, s.reader.next.1 ≠ .payload payload)
    (hw : s.reader.next.1 ≠ .waiting) : s.receiveNext.isRunning = false := by
  unfold receiveNext
  rcases hn : s.reader.next with ⟨payload | _ | cutShort | fault, reader⟩
  · exact absurd (congrArg Prod.fst hn) (hp payload)
  · exact absurd (congrArg Prod.fst hn) hw
  · exact isRunning_stop _ _
  · exact isRunning_stop _ _

theorem isRunning_of_act {a : Action} (h : (s.act a).isRunning = true) : s.isRunning = true := by
  by_cases hr : s.isRunning = true
  · exact hr
  · have := ((core_act s a).of_stopped (Bool.eq_false_iff.2 hr)).1
    exact absurd (this.symm.trans h) Bool.false_ne_true

theorem reader_of_takesIn {a : Action} (ha : a.takesIn = false) : (s.act a).reader = s.reader :=
  (desk_act s a).reader_of_takesIn ha

theorem reader_receive (hrun : s.isRunning = true) :
    (s.act .receive).reader = s.reader.next.2 :=
  (desk_act s .receive).reader_receive hrun

/-- Of the payloads of a stream some have been handled. While the task is running, those of the
bytes that have arrived that are not in their frames are ahead of the reader. -/
structure Reads (limit : Nat) (payloads : List (List UInt8)) (bytes : List UInt8)
    (handled : List (List UInt8)) (s : State R N) : Prop where
  done : handled <+: payloads
  ready : s.isRunning = true → s.reader.Ready limit
  ahead : s.isRunning = true → stream handled ++ s.reader.ahead = bytes

variable {limit : Nat} {payloads done : List (List UInt8)} {bytes : List UInt8}

theorem Reads.of_reader {s' : State R N} (h : s.Reads limit payloads bytes done)
    (hrun : s'.isRunning = true → s.isRunning = true) (hr : s'.reader = s.reader) :
    s'.Reads limit payloads bytes done :=
  ⟨h.done, fun h' => hr ▸ h.ready (hrun h'), fun h' => hr ▸ h.ahead (hrun h')⟩

/-- Reading gives the next payload of the stream, or none if it has not arrived in full or is too
long. -/
theorem Reads.receive (h : s.Reads limit payloads bytes done) (hl : limit < UInt64.size)
    (hb : bytes <+: stream payloads) :
    (s.act .receive).Reads limit payloads bytes (done ++ (s.handled .receive).toList) := by
  by_cases hrun : s.isRunning = true
  swap
  · rw [act, if_neg hrun, handled, if_neg hrun]
    simpa using h
  have hready := h.ready hrun
  have hahead := h.ahead hrun
  obtain ⟨rest, rfl⟩ := h.done
  have hrest : s.reader.ahead <+: stream rest := by
    rw [← hahead, Frame.stream_append] at hb
    exact (List.prefix_append_right_inj _).1 hb
  have hreader := reader_receive hrun
  have hstuck : Frame.Stuck limit s.reader.ahead →
      (s.act .receive).Reads limit (done ++ rest) bytes
        (done ++ (s.handled .receive).toList) := by
    intro hs
    obtain ⟨hother, hkept⟩ := Frame.Reader.next_of_stuck hready hs
    have hwaiting : (s.act .receive).isRunning = true → s.reader.next.1 = .waiting := by
      intro h'
      by_contra hne
      rw [act, if_pos hrun, isRunning_receiveNext hother hne] at h'
      cases h'
    rw [handled_of_other hother, Option.toList_none, List.append_nil]
    refine ⟨List.prefix_append _ _, fun h' => ?_, fun h' => ?_⟩
    · rw [hreader]
      exact (hkept (hwaiting h')).1
    · rw [hreader, (hkept (hwaiting h')).2, hahead]
  cases rest with
  | nil => exact hstuck (((Frame.fragment_nil limit).of_isPrefix hrest).stuck hl)
  | cons payload rest =>
    rcases Frame.whole_or_stuck hl hrest with ⟨hpayload, more, hmore, -⟩ | hs
    · obtain ⟨r', hnext, hahead', hready', -⟩ := Frame.Reader.next_of_whole hready hl hpayload hmore
      rw [handled_of_payload hrun hnext, Option.toList_some]
      refine ⟨?_, fun _ => ?_, fun _ => ?_⟩
      · rw [List.append_cons done payload rest]
        exact List.prefix_append _ _
      · rw [hreader, hnext]
        exact hready'
      · rw [hreader, hnext, hahead', ← hahead, hmore]
        simp
    · exact hstuck hs

theorem Reads.arrive (h : s.Reads limit payloads bytes done) (more : List UInt8) :
    (s.act (.arrive more)).Reads limit payloads (bytes ++ more) done := by
  have hreader : (s.act (.arrive more)).reader = s.reader.push more := rfl
  refine ⟨h.done, fun hrun => (h.ready hrun).push more, fun hrun => ?_⟩
  rw [hreader, Frame.Reader.ahead_push, ← List.append_assoc, h.ahead hrun]

/-- What holds of the reader and of what has been handled is preserved by every action. -/
theorem Reads.act {actions : List Action} {a : Action}
    (h : s.Reads limit payloads (arrived actions) done) (hl : limit < UInt64.size)
    (hb : arrived (actions ++ [a]) <+: stream payloads) :
    (s.act a).Reads limit payloads (arrived (actions ++ [a]))
      (done ++ (s.handled a).toList) := by
  by_cases ha : a.takesIn = true
  · cases a with
    | arrive more =>
      rw [arrived_concat_arrive, handled_of_ne Action.noConfusion, Option.toList_none,
        List.append_nil]
      exact h.arrive more
    | closeSource ending =>
      rw [arrived_concat (by simp), handled_of_ne Action.noConfusion, Option.toList_none,
        List.append_nil]
      exact ⟨h.done, fun hrun => (h.ready hrun).close ending, h.ahead⟩
    | receive =>
      rw [arrived_concat (by simp)] at hb ⊢
      exact h.receive hl hb
    | _ => cases ha
  · have ha := Bool.eq_false_iff.2 ha
    have hne : ∀ bytes, a ≠ .arrive bytes := by
      rintro bytes rfl
      cases ha
    rw [arrived_concat hne, handled_of_ne (by rintro rfl; cases ha), Option.toList_none,
      List.append_nil]
    exact h.of_reader isRunning_of_act (reader_of_takesIn ha)

variable {registry : Rpc.Registry R N} {config : Config}

theorem reads_run {actions : List Action} (hl : config.maxMessageSize < UInt64.size)
    (hb : arrived actions <+: stream payloads) :
    ((start registry config).run actions).Reads config.maxMessageSize payloads (arrived actions)
      ((start registry config).got actions) := by
  induction actions using List.reverseRecOn with
  | nil => exact ⟨List.nil_prefix, fun _ => Frame.Reader.ready_start _ _, fun _ => rfl⟩
  | append_singleton actions a ih =>
    have hb' : arrived actions <+: stream payloads := by
      rw [arrived_append] at hb
      exact (List.prefix_append _ _).trans hb
    rw [run_concat, got_concat]
    exact (ih hb').act hl hb

/-- The payloads that are handled are the first ones of the stream, in their order. -/
theorem got_isPrefix {actions : List Action} (hl : config.maxMessageSize < UInt64.size)
    (hb : arrived actions <+: stream payloads) :
    (start registry config).got actions <+: payloads :=
  (reads_run hl hb).done

end State

end PeerRpc.Session
