import PeerRpc.Proofs.Session.Backlog
import PeerRpc.Proofs.Session.Callers
import PeerRpc.Proofs.Session.Surroundings

/-!
# Two sessions in step

Two sessions are in step if they differ in their surroundings only, one of them perhaps with more to
write and with more protocol errors among its events (`Mirrors`); once they have stopped, it is
enough that they know the same of their calls (`Alike`). Every action keeps them in step if it
happens to both of them, and both deliver and send the same (`Alike.act`, `Alike.receive`).
-/

namespace PeerRpc.Session

open Rpc (Envelope)

namespace State

variable {R N : Type}

/-- The events that an action delivers: those behind the ones that were waiting. -/
def deliveredBy (s : State R N) (a : Action) : List (Event R N) :=
  (s.act a).events.toList.drop s.events.size

/-- The events that are delivered in a run. -/
def delivered (s : State R N) (actions : List Action) : List (Event R N) :=
  s.along deliveredBy actions

theorem delivered_concat (s : State R N) (actions : List Action) (a : Action) :
    s.delivered (actions ++ [a]) = s.delivered actions ++ (s.run actions).deliveredBy a :=
  along_concat _ s actions a

variable {s s' : State R N}

/-- Of two sessions at work the second differs from the first in its surroundings only: it has no
less to write, and perhaps more protocol errors wait. -/
structure Mirrors (s s' : State R N) : Prop where
  rest : s' = s.within s'.surroundings
  outbox : Outbox.Trails s.outbox s'.outbox
  events : s'.events.toList.filter Event.isCall = s.events.toList.filter Event.isCall

/-- Two sessions know the same of their calls, and as long as they are at work the second one
differs from the first in its surroundings only. -/
structure Alike (s s' : State R N) : Prop where
  core : s'.core = s.core
  atWork : s.isRunning = true → Mirrors s s'

/-- Two sessions stay in step while something happens to each of them, and both deliver and send the
same. -/
structure InStep (s s' s₁ s₁' : State R N) : Prop where
  alike : Alike s₁ s₁'
  delivered : s₁'.events.toList.drop s'.events.size = s₁.events.toList.drop s.events.size
  sent : s₁'.outbox.queue.toList.drop s'.outbox.queue.size =
    s₁.outbox.queue.toList.drop s.outbox.queue.size

theorem Alike.isRunning_eq (h : Alike s s') : s'.isRunning = s.isRunning :=
  congrArg Core.running h.core

theorem Mirrors.alike (h : Mirrors s s') : Alike s s' := by
  refine ⟨?_, fun _ => h⟩
  rw [h.rest]
  rfl

theorem drop_put {o o' : Outbox} (h : o'.writing = o.writing) (e : Envelope) :
    (o'.put e).queue.toList.drop o'.queue.size = (o.put e).queue.toList.drop o.queue.size := by
  unfold Outbox.put Outbox.isActive
  rw [h]
  split_ifs
  · rw [drop_push, drop_push]
  · rw [drop_size, drop_size]

/-- What is the same in all surroundings keeps two sessions in step. -/
theorem Mirrors.steady {f : State R N → State R N} (h : Mirrors s s') (hf : Steady s f) :
    InStep s s' (f s) (f s') := by
  obtain ⟨move, deliver, hmove, hdeliver, hwithin⟩ := hf
  obtain ⟨records, hs⟩ := hwithin s.surroundings
  obtain ⟨records', hs'⟩ := hwithin s'.surroundings
  rw [within_surroundings] at hs
  rw [← h.rest] at hs'
  have houtbox : (f s).outbox = move s.outbox := congrArg State.outbox hs
  have houtbox' : (f s').outbox = move s'.outbox := congrArg State.outbox hs'
  have hevents : (f s).events = deliver s.events := congrArg State.events hs
  have hevents' : (f s').events = deliver s'.events := congrArg State.events hs'
  have hcore : (f s').core = (f s).core := by rw [hs', core_within]
  refine ⟨⟨hcore, fun hrun => ⟨?_, ?_, ?_⟩⟩, ?_, ?_⟩
  · rw [hs']
    rfl
  · rw [houtbox, houtbox']
    cases hmove with
    | same => exact h.outbox
    | put _ e => exact h.outbox.put e
    | closeOff hstop => exact absurd (hstop.symm.trans hrun) Bool.false_ne_true
    | setMode mode => exact h.outbox.setMode mode
  · rw [hevents, hevents']
    cases hdeliver with
    | same => exact h.events
    | emit _ e =>
      dsimp only
      split_ifs
      · rw [Array.toList_push, Array.toList_push, List.filter_append, List.filter_append, h.events]
      · exact h.events
    | clear => rfl
  · rw [hevents, hevents']
    cases hdeliver with
    | same => exact (drop_size _).trans (drop_size _).symm
    | emit _ e =>
      dsimp only
      split_ifs
      · rw [drop_push, drop_push]
      · rw [drop_size, drop_size]
    | clear => rw [Array.toList_empty, List.drop_nil, List.drop_nil]
  · rw [houtbox, houtbox']
    cases hmove with
    | same | closeOff | setMode => exact (drop_size _).trans (drop_size _).symm
    | put _ e => exact drop_put h.outbox.writing e

/-! ## Sessions that have stopped -/

theorem command_of_stopped (hrun : s.isRunning = false) (c : Command) : s.command c = s :=
  if_neg (Bool.eq_false_iff.1 hrun)

theorem abandon_of_stopped (hrun : s.isRunning = false) (k : Call) : s.abandon k = s :=
  command_of_stopped hrun _

theorem sendWritten_of_stopped (hrun : s.isRunning = false) (method : String)
    (params : Option Json) (transient : Bool) :
    (s.sendWritten method params transient).2 = { s with nextId := s.nextId + 1 } := by
  have hsend : s.sendWritten method params transient =
      (.error .closed, { s with nextId := s.nextId + 1 }) := if_neg (Bool.eq_false_iff.1 hrun)
  rw [hsend]

section

variable (hrun : s.isRunning = false) (h : s'.core = s.core)

include h

theorem core_finishCall_congr (call : Nat) : (s'.finishCall call).core = (s.finishCall call).core :=
  congrArg (fun c : Core => { c with
    calls := c.calls.modify call fun k =>
      { k with finished := true, held := k.held && !k.transient } }) h

theorem core_poll_congr (call : Nat) : (s'.poll call).2.core = (s.poll call).2.core := by
  have hcalls : s'.calls = s.calls := congrArg Core.calls h
  unfold poll
  rw [hcalls]
  cases s.calls[call]? with
  | none => exact h
  | some k =>
    dsimp only
    split_ifs
    · exact core_finishCall_congr h call
    · cases k.outcomes.head? with
      | none => exact h
      | some outcome => exact core_finishCall_congr h call

include hrun

theorem core_send_congr (m : Rpc.RequestMethod) (p : m.Params) (transient : Bool) :
    (s'.send m p transient).2.core = (s.send m p transient).2.core := by
  have hrun' : s'.isRunning = false := (congrArg Core.running h).trans hrun
  unfold send
  cases m.params.encode p with
  | error fault => exact h
  | ok params =>
    dsimp only
    rw [sendWritten_of_stopped hrun, sendWritten_of_stopped hrun']
    exact congrArg (fun c : Core => { c with nextId := c.nextId + 1 }) h

theorem core_cancel_congr (call : Nat) : (s'.cancel call).core = (s.cancel call).core := by
  have hrun' : s'.isRunning = false := (congrArg Core.running h).trans hrun
  have hcalls : s'.calls = s.calls := congrArg Core.calls h
  unfold cancel
  rw [hcalls]
  cases s.calls[call]? with
  | none => exact h
  | some k =>
    dsimp only
    split_ifs
    · exact h
    · rw [abandon_of_stopped (by exact hrun'), abandon_of_stopped (by exact hrun)]
      exact congrArg (fun c : Core => { c with
        calls := s.calls.modify call fun k => { k with cancelled := true } }) h

theorem core_dropCall_congr (call : Nat) : (s'.dropCall call).core = (s.dropCall call).core := by
  have hrun' : s'.isRunning = false := (congrArg Core.running h).trans hrun
  have hcalls : s'.calls = s.calls := congrArg Core.calls h
  unfold dropCall
  rw [hcalls]
  cases s.calls[call]? with
  | none => exact h
  | some k =>
    dsimp only
    rw [abandon_of_stopped hrun, abandon_of_stopped hrun', ite_self, ite_self]
    exact congrArg (fun c : Core => { c with calls := c.calls.modify call fun k =>
      { k with held := false } }) h

end

/-- What a session that has stopped knows of its calls is changed by their callers only. -/
theorem core_act_of_stopped (hrun : s.isRunning = false) {a : Action} (ha : a.usesCall = false) :
    (s.act a).core = s.core := by
  have hne := Bool.eq_false_iff.1 hrun
  cases a with
  | send | poll | cancel | dropCall => cases ha
  | notify m p =>
    rw [act, notify]
    cases m.params.encode p with
    | error fault => rfl
    | ok params =>
      dsimp only
      rw [if_neg hne]
  | countPending =>
    rw [act, countPending, if_neg hne]
    rfl
  | close =>
    rw [act, close, command_of_stopped hrun]
    rfl
  | respond ticket outcome => exact core_respond s ticket outcome
  | dropTicket ticket => exact core_dropTicket s ticket
  | dropEvents => exact core_dropEvents s
  | pollWaiter waiter => exact core_pollWaiter s waiter
  | handle | receive => rw [act, if_neg hne]
  | release =>
    rw [act, if_neg]
    simp [hrun]
  | notice =>
    rw [act]
    unfold noticeOutbox
    split
    · rename_i hphase _
      exact absurd (by rw [isRunning, hphase]) hne
    · rename_i hphase _
      exact absurd (by rw [isRunning, hphase]) hne
    · rfl
    · rename_i hphase _ _
      change Core.mk _ _ _ _ _ = _
      rw [core, hrun]
      rfl
    · rfl
  | _ => rfl

/-- What a session that has stopped knows of its calls tells what it knows of them after an action.
-/
theorem core_act_congr (hrun : s.isRunning = false) (h : s'.core = s.core) (a : Action) :
    (s'.act a).core = (s.act a).core := by
  have hrun' : s'.isRunning = false := (congrArg Core.running h).trans hrun
  have hholds : ∀ call, s'.holds call = s.holds call := by
    intro call
    rw [holds, holds, show s'.calls = s.calls from congrArg Core.calls h]
  by_cases ha : a.usesCall = true
  swap
  · have ha := Bool.eq_false_iff.2 ha
    rw [core_act_of_stopped hrun ha, core_act_of_stopped hrun' ha, h]
  cases a with
  | send m p transient => exact core_send_congr hrun h m p transient
  | poll call =>
    rw [act, act, hholds]
    split_ifs
    · exact core_poll_congr h call
    · exact h
  | cancel call =>
    rw [act, act, hholds]
    split_ifs
    · exact core_cancel_congr hrun h call
    · exact h
  | dropCall call =>
    rw [act, act, hholds]
    split_ifs
    · exact core_dropCall_congr hrun h call
    · exact h
  | _ => cases ha

theorem outbox_dropEvents (s : State R N) : s.dropEvents.outbox = s.outbox := by
  obtain ⟨records, h⟩ := dropEvents_within (s := s) (w := s.surroundings) rfl
  rw [within_surroundings] at h
  rw [h]
  rfl

theorem idle_stop (s : State R N) (reason : Stop) :
    (s.stop reason).events.toList.drop s.events.size = [] ∧
      (s.stop reason).outbox.queue.toList.drop s.outbox.queue.size = [] := by
  obtain ⟨o', hq, hdesk⟩ := desk_stop s reason
  have houtbox : (s.stop reason).outbox = o' := congrArg Desk.outbox hdesk
  rw [events_stop, houtbox]
  exact ⟨drop_size _, List.drop_eq_nil_of_le hq.size_le⟩

theorem idle_write (s : State R N) : s.deliveredBy .write = [] ∧ s.sentBy .write = [] :=
  ⟨drop_size _, List.drop_eq_nil_of_le (Outbox.Quiet.step s.outbox).size_le⟩

/-- A session that has stopped delivers nothing and sends nothing. -/
theorem idle_of_stopped (hrun : s.isRunning = false) (a : Action) :
    s.deliveredBy a = [] ∧ s.sentBy a = [] := by
  have hne := Bool.eq_false_iff.1 hrun
  have hsame : s.act a = s → s.deliveredBy a = [] ∧ s.sentBy a = [] := by
    intro h
    rw [deliveredBy, sentBy, h]
    exact ⟨drop_size _, drop_size _⟩
  by_cases ha : a.steady = true
  · obtain ⟨move, deliver, hmove, hdeliver, hwithin⟩ := steady_act s a ha
    obtain ⟨records, hs⟩ := hwithin s.surroundings
    rw [within_surroundings] at hs
    have houtbox : (s.act a).outbox = move s.outbox := congrArg State.outbox hs
    have hevents : (s.act a).events = deliver s.events := congrArg State.events hs
    rw [deliveredBy, sentBy, houtbox, hevents]
    constructor
    · cases hdeliver with
      | same => exact drop_size _
      | emit hr => exact absurd hr hne
      | clear => exact List.drop_nil
    · cases hmove with
      | same | closeOff | setMode => exact drop_size _
      | put hr => exact absurd hr hne
  · cases a with
    | arrive | closeSource => exact ⟨drop_size _, drop_size _⟩
    | receive => exact hsame (if_neg hne)
    | write => exact idle_write s
    | notice =>
      rw [deliveredBy, sentBy, act]
      unfold noticeOutbox
      split <;> first | exact idle_stop s _ | exact ⟨drop_size _, drop_size _⟩
    | dropEvents =>
      rw [deliveredBy, sentBy, act, outbox_dropEvents]
      exact ⟨List.drop_nil, drop_size _⟩
    | _ => exact absurd rfl ha

/-! ## One action of both -/

/-- Both sessions stop after something that neither delivers nor sends. -/
theorem InStep.of_stop {t t' : State R N} (h : t'.core = t.core) (he : t.events = s.events)
    (he' : t'.events = s'.events) (ho : t.outbox = s.outbox) (ho' : t'.outbox = s'.outbox)
    (reason reason' : Stop) : InStep s s' (t.stop reason) (t'.stop reason') := by
  refine ⟨⟨by rw [core_stop, core_stop, h], fun hrun => ?_⟩, ?_, ?_⟩
  · exact absurd hrun (isRunning_stop_ne t reason)
  · rw [← he, ← he', (idle_stop t reason).1, (idle_stop t' reason').1]
  · rw [← ho, ← ho', (idle_stop t reason).2, (idle_stop t' reason').2]

theorem Mirrors.write (h : Mirrors s s')
    (hw : s'.outbox.step.isActive = false → s.outbox.step.isActive = false) :
    InStep s s' (s.act .write) (s'.act .write) := by
  have hrest : s'.act .write = (s.act .write).within (s'.act .write).surroundings :=
    congrArg (fun t : State R N => t.act .write) h.rest
  have hm : Mirrors (s.act .write) (s'.act .write) := ⟨hrest, h.outbox.step hw, h.events⟩
  exact ⟨hm.alike, (idle_write s').1.trans (idle_write s).1.symm,
    (idle_write s').2.trans (idle_write s).2.symm⟩

theorem Mirrors.notice (h : Mirrors s s') (hrun : s.isRunning = true) :
    InStep s s' s.noticeOutbox s'.noticeOutbox := by
  have hphase : s.phase = .running := by
    unfold isRunning at hrun
    split at hrun
    · assumption
    · cases hrun
  have hphase' : s'.phase = .running := (congrArg State.phase h.rest).trans hphase
  have hcore := h.alike.core
  unfold noticeOutbox
  rw [hphase, hphase', h.outbox.writing]
  cases s.outbox.writing with
  | complete | broken => exact .of_stop hcore rfl rfl rfl rfl _ _
  | active | abandoned =>
    exact ⟨h.alike, (drop_size _).trans (drop_size _).symm, (drop_size _).trans (drop_size _).symm⟩

theorem Mirrors.dropEvents (h : Mirrors s s') : InStep s s' s.dropEvents s'.dropEvents := by
  obtain ⟨records, hdrop⟩ := dropEvents_within (w := s'.surroundings) h.events
  rw [← h.rest] at hdrop
  have hm : Mirrors s.dropEvents s'.dropEvents := by
    refine ⟨?_, ?_, rfl⟩
    · rw [hdrop]
      rfl
    · rw [outbox_dropEvents, outbox_dropEvents]
      exact h.outbox
  refine ⟨hm.alike, List.drop_nil.trans List.drop_nil.symm, ?_⟩
  rw [outbox_dropEvents, outbox_dropEvents]
  exact (drop_size _).trans (drop_size _).symm

/-- What is the same to read in both sessions keeps them in step. -/
theorem Mirrors.receive (h : Mirrors s s') (hrun : s.isRunning = true)
    (hnext : s'.reader.next.1 = s.reader.next.1) : InStep s s' s.receiveNext s'.receiveNext := by
  have hcore := h.alike.core
  have hm : ∀ r r', Mirrors { s with reader := r } { s' with reader := r' } := fun r r' =>
    ⟨congrArg (fun t : State R N => { t with reader := r' }) h.rest, h.outbox, h.events⟩
  obtain ⟨x, r, hn⟩ : ∃ x r, s.reader.next = (x, r) := ⟨_, _, rfl⟩
  obtain ⟨x', r', hn'⟩ : ∃ x r, s'.reader.next = (x, r) := ⟨_, _, rfl⟩
  rw [hn, hn'] at hnext
  obtain rfl : x' = x := hnext
  unfold receiveNext
  rw [hn, hn']
  cases x' with
  | payload payload =>
    have hsteady := steady_handlePayload (s := { s with reader := r }) hrun payload
    have hstep := (hm r r').steady hsteady
    exact ⟨hstep.alike, hstep.delivered, hstep.sent⟩
  | waiting =>
    exact ⟨(hm r r').alike, (drop_size _).trans (drop_size _).symm,
      (drop_size _).trans (drop_size _).symm⟩
  | ended cutShort =>
    cases cutShort with
    | true | false => refine .of_stop ?_ ?_ ?_ ?_ ?_ _ _ <;> first | exact hcore | rfl
  | failed fault => refine .of_stop ?_ ?_ ?_ ?_ ?_ _ _ <;> first | exact hcore | rfl

/-- The same action keeps two sessions in step. A write that breaks the second must break the
first. -/
theorem Alike.act (h : Alike s s') {a : Action} (ha : a.takesIn = false)
    (hw : a = .write → s'.isRunning = true → (s'.act a).outbox.isActive = false →
      (s.act a).outbox.isActive = false) : InStep s s' (s.act a) (s'.act a) := by
  by_cases hrun : s.isRunning = true
  · have hm := h.atWork hrun
    by_cases hs : a.steady = true
    · exact hm.steady (steady_act s a hs)
    · cases a with
      | arrive | closeSource | receive => cases ha
      | write => exact hm.write (hw rfl (h.isRunning_eq.trans hrun))
      | notice => exact hm.notice hrun
      | dropEvents => exact hm.dropEvents
      | _ => exact absurd rfl hs
  · have hrun := Bool.eq_false_iff.2 hrun
    have hrun' : s'.isRunning = false := h.isRunning_eq.trans hrun
    have hidle := idle_of_stopped hrun a
    have hidle' := idle_of_stopped hrun' a
    refine ⟨⟨core_act_congr hrun h.core a, fun hr => ?_⟩, hidle'.1.trans hidle.1.symm,
      hidle'.2.trans hidle.2.symm⟩
    exact absurd (isRunning_of_act hr) (Bool.eq_false_iff.1 hrun)

theorem Alike.receive (h : Alike s s')
    (hnext : s.isRunning = true → s'.reader.next.1 = s.reader.next.1) :
    InStep s s' (s.act .receive) (s'.act .receive) := by
  rw [State.act, State.act, h.isRunning_eq]
  split_ifs with hrun
  · exact (h.atWork hrun).receive hrun (hnext hrun)
  · exact ⟨h, (drop_size _).trans (drop_size _).symm, (drop_size _).trans (drop_size _).symm⟩

/-- An action of the source of the first session alone. -/
theorem Alike.left (h : Alike s s') (reader : Frame.Reader) : Alike { s with reader } s' :=
  ⟨h.core, fun hrun =>
    let hm := h.atWork hrun
    ⟨hm.rest, hm.outbox, hm.events⟩⟩

theorem Alike.right (h : Alike s s') (reader : Frame.Reader) : Alike s { s' with reader } :=
  ⟨h.core, fun hrun =>
    let hm := h.atWork hrun
    ⟨congrArg (fun t : State R N => { t with reader }) hm.rest, hm.outbox, hm.events⟩⟩

/-- The second session writes what it has more to write than the first. -/
theorem Alike.write_right (h : Alike s s') (hl : s.outbox.load < s'.outbox.load)
    (ha : s'.outbox.step.isActive = true) : Alike s (s'.act .write) :=
  ⟨h.core, fun hrun =>
    let hm := h.atWork hrun
    ⟨congrArg (fun t : State R N => t.act .write) hm.rest, hm.outbox.step_right hl ha, hm.events⟩⟩

end State

end PeerRpc.Session
