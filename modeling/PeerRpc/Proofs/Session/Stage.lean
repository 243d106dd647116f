import PeerRpc.Proofs.Session.Backlog
import PeerRpc.Proofs.Session.GivenUp

/-!
# What a session puts into its outbox, and when it stops

An action has an envelope to put into the outbox, or none: the task sends what its owner asks for
and tells the peer of calls that are given up, it answers by itself some of the payloads that it
handles, and the owner answers others (`due`). Besides, the outbox writes, its sink changes its ways,
and the task stops: it lets the outbox finish if it was asked to stop or nobody holds the session,
and abandons it otherwise (`stage_act`).
-/

namespace PeerRpc.Session

open Rpc (Envelope Failure Id Message)

namespace State

variable {R N : Type} {s : State R N} {a : Action}

/-! ## What is due -/

/-- The envelope that a command asks for. A request whose identifier is open already is rejected,
and the peer is not told of a call that is not open. -/
def envelopeOf (s : State R N) : Command → Option Envelope
  | .request id method params _ =>
    if (s.pendingCall? id).isSome then none else some (.request id method params)
  | .notify method params => some (.notification method params)
  | .abandon id tell => if tell && (s.pendingCall? id).isSome then some (cancelNotice id) else none
  | .count _ | .close => none

/-- The error with which the session itself answers a payload. -/
def ownAnswer (s : State R N) (payload : List UInt8) : Option Envelope :=
  match Message.ofPayload payload with
  | .ok (.request id method params) => (s.refusal method params).map (.failure id)
  | .ok _ => none
  | .error fault =>
    (Rpc.requestIdOf? payload).map fun id => .failure id (.invalidRequest fault.message)

/-- The envelope that an action has to put into the outbox. -/
def due (s : State R N) : Action → Option Envelope
  | .handle => (s.obeyed .handle).bind s.envelopeOf
  | .receive => (s.handled .receive).bind s.ownAnswer
  | .respond ticket outcome =>
    if s.isRunning && s.outbox.isActive then (s.ticket? ticket).map (.response ·.id outcome)
    else none
  | _ => none

/-! ## Stages -/

/-- Whether the task is at work, and the outbox. -/
def stage (s : State R N) : Phase × Outbox :=
  (s.phase, s.outbox)

theorem stage_command (s : State R N) (c : Command) : (s.command c).stage = s.stage := by
  unfold command
  split <;> rfl

theorem stage_emit (s : State R N) (e : Event R N) : (s.emit e).stage = s.stage := by
  unfold emit
  split <;> rfl

/-! ### The owner -/

theorem stage_send (s : State R N) (m : Rpc.RequestMethod) (p : m.Params) (transient : Bool) :
    (s.send m p transient).2.stage = s.stage := by
  unfold send sendWritten
  split
  · rfl
  · dsimp only
    split
    · exact stage_command _ _
    · rfl

theorem stage_notify (s : State R N) (m : Rpc.NotificationMethod) (p : m.Params) :
    (s.notify m p).2.stage = s.stage := by
  unfold notify
  split
  · rfl
  · split
    · exact stage_command _ _
    · rfl

theorem stage_poll (s : State R N) (call : Nat) : (s.poll call).2.stage = s.stage := by
  rcases poll_cases s call with h | ⟨k, -, -, h⟩ <;> rw [h]
  rfl

theorem stage_cancel (s : State R N) (call : Nat) : (s.cancel call).stage = s.stage := by
  rcases cancel_cases s call with h | ⟨k, -, -, h⟩ <;> rw [h]
  exact stage_command _ _

theorem stage_dropCall (s : State R N) (call : Nat) : (s.dropCall call).stage = s.stage := by
  rcases dropCall_cases s call with ⟨h, -⟩ | ⟨k, -, s', h, ⟨-, rfl⟩ | ⟨-, rfl⟩⟩ <;> rw [h]
  · exact stage_command _ _
  · rfl

theorem stage_countPending (s : State R N) : s.countPending.2.stage = s.stage := by
  unfold countPending
  dsimp only
  split
  · exact stage_command _ _
  · rfl

theorem stage_pollWaiter (s : State R N) (waiter : Nat) :
    (s.pollWaiter waiter).2.stage = s.stage := by
  unfold pollWaiter
  split
  · rfl
  · unfold pollJoin
    split
    · split <;> rfl
    · rfl
  · rfl

theorem stage_dropTicket (s : State R N) (ticket : Nat) : (s.dropTicket ticket).stage = s.stage := by
  unfold dropTicket
  split <;> rfl

theorem stage_dropEvents (s : State R N) : s.dropEvents.stage = s.stage := by
  unfold dropEvents
  dsimp only
  rw [← Array.foldl_toList]
  generalize s.events.toList = events
  induction events generalizing s with
  | nil => rfl
  | cons e rest ih =>
    rw [List.foldl_cons]
    refine (ih _).trans ?_
    cases e with
    | request id value ticket => exact stage_dropTicket s ticket
    | _ => rfl

theorem stage_respond (s : State R N) (ticket : Nat) (outcome : Except Failure Json) :
    (s.respond ticket outcome).2.stage =
      (s.phase, (s.due (.respond ticket outcome)).elim s.outbox s.outbox.put) := by
  rw [due]
  cases ht : s.ticket? ticket with
  | none =>
    rw [respond, ht, Option.map_none, ite_self]
    rfl
  | some t =>
    rw [respond, ht]
    have hrun : (s.spend ticket).isRunning = s.isRunning := rfl
    have hactive : (s.spend ticket).outbox = s.outbox := rfl
    dsimp only
    rw [hrun, hactive]
    split <;> rfl

/-! ### The task -/

theorem stage_stop (s : State R N) (reason : Stop) :
    (s.stop reason).stage = match reason with
      | .closed => (.flushing, s.outbox.closeOff)
      | .disconnected => (.stopped (.ok ()), s.outbox.closeOff.abandon)
      | .failed error => (.stopped (.error error), s.outbox.closeOff.abandon) := by
  have hrefuse : ∀ (commands : List Command) (s : State R N),
      (commands.foldl refuse s).outbox = s.outbox :=
    fun commands s => congrArg Desk.outbox (desk_foldl_refuse s commands)
  have hsettle : ∀ (pending : List (Id × Nat)) (s : State R N),
      (pending.foldl (fun s p => s.settleCall p.2 (.error .closed)) s).outbox = s.outbox :=
    fun pending s => congrArg Desk.outbox (desk_foldl_settle s pending)
  cases reason <;> unfold stop stage <;> dsimp only [conclude, log] <;> rw [hsettle, hrefuse]

theorem stage_sendCancel (s : State R N) (id : Id) :
    (s.sendCancel id).stage = (s.phase, s.outbox.put (cancelNotice id)) := by
  refine Prod.ext ?_ (outbox_sendCancel s id)
  unfold sendCancel
  split <;> rfl

/-- A command other than the one to stop puts into the outbox what it asks for. -/
theorem stage_handleCommand {c : Command} (hc : c ≠ .close) :
    (s.handleCommand c).stage = (s.phase, (s.envelopeOf c).elim s.outbox s.outbox.put) := by
  cases c with
  | request id method params call =>
    rw [handleCommand, envelopeOf]
    cases s.pendingCall? id with
    | none => rfl
    | some other => exact stage_emit _ _
  | notify method params => rfl
  | abandon id tell =>
    rw [handleCommand, envelopeOf]
    cases s.pendingCall? id with
    | none => rw [Option.isSome_none, Bool.and_false]; rfl
    | some call =>
      cases tell with
      | false => rfl
      | true => exact stage_sendCancel _ id
  | count waiter => rfl
  | close => exact absurd rfl hc

theorem stage_handleRequest (s : State R N) (id : Id) (method : String) (params : Option Json) :
    (s.handleRequest id method params).stage =
      (s.phase, ((s.refusal method params).map (.failure id)).elim s.outbox s.outbox.put) := by
  unfold handleRequest refusal
  cases s.registry.decodeRequest method params with
  | error fault => exact stage_emit _ _
  | ok value =>
    dsimp only [deliverRequest]
    split <;> rfl

theorem stage_handlePayload (s : State R N) (payload : List UInt8) :
    (s.handlePayload payload).stage =
      (s.phase, (s.ownAnswer payload).elim s.outbox s.outbox.put) := by
  unfold handlePayload ownAnswer
  cases Message.ofPayload payload with
  | error fault =>
    dsimp only [handleMalformed]
    rw [stage_emit]
    cases Rpc.requestIdOf? payload <;> rfl
  | ok message =>
    cases message with
    | request id method params => exact stage_handleRequest s id method params
    | notification method params =>
      dsimp only [handleMessage, handleNotification]
      split <;> exact stage_emit _ _
    | response r =>
      dsimp only [handleMessage, handleResponse]
      split
      · exact stage_emit _ _
      · split
        · rfl
        · exact stage_emit _ _

/-! ## Actions -/

/-- How an action changes the stage. -/
inductive StageStep (s : State R N) (a : Action) : Phase × Outbox → Prop
  /-- What is due is put into the outbox. -/
  | put : StageStep s a (s.phase, (s.due a).elim s.outbox s.outbox.put)
  | setMode (mode : Frame.SinkMode) (ha : a = .setSink mode) :
    StageStep s a (s.phase, { s.outbox with sink := { s.outbox.sink with mode } })
  | write (ha : a = .write) : StageStep s a (s.phase, s.outbox.step)
  /-- The task stops and lets the outbox finish. -/
  | close (hrun : s.isRunning = true) (ha : s.obeyed a = some .close ∨ a = .release)
    (hdue : s.due a = none) : StageStep s a (.flushing, s.outbox.closeOff)
  /-- The task stops and abandons the outbox. -/
  | fail (result : Except Error Unit) (hrun : s.isRunning = true) (ha : a = .receive ∨ a = .notice)
    (hdue : s.due a = none) : StageStep s a (.stopped result, s.outbox.closeOff.abandon)
  /-- The outbox has finished. -/
  | conclude (ha : a = .notice) (hphase : s.phase = .flushing)
    (hactive : s.outbox.isActive = false) : StageStep s a (.stopped (.ok ()), s.outbox)

theorem StageStep.keep {p : Phase × Outbox} (hdue : s.due a = none) (h : p = s.stage) :
    StageStep s a p := by
  have hput := StageStep.put (s := s) (a := a)
  rwa [hdue, Option.elim_none, ← stage, ← h] at hput

theorem phase_of_isRunning (hrun : s.isRunning = true) : s.phase = .running := by
  unfold isRunning at hrun
  split at hrun
  · assumption
  · cases hrun

theorem stageStep_handle (s : State R N) : StageStep s .handle (s.act .handle).stage := by
  rw [act]
  split_ifs with hrun
  · unfold handleNext
    cases hc : s.commands with
    | nil =>
      have ho : s.obeyed .handle = none := by rw [obeyed, if_pos hrun, hc, List.head?_nil]
      exact .keep (by rw [due, ho, Option.bind_none]) rfl
    | cons c rest =>
      have ho := obeyed_handle hrun hc
      by_cases hclose : c = .close
      · subst hclose
        have hstage := stage_stop ({ s with commands := rest } : State R N) .closed
        exact hstage ▸ .close hrun (.inl ho) (by rw [due, ho]; rfl)
      · have hdue : s.due .handle = s.envelopeOf c := by rw [due, ho, Option.bind_some]
        have hstage := stage_handleCommand (s := { s with commands := rest }) hclose
        have hput := StageStep.put (s := s) (a := .handle)
        rw [hdue] at hput
        exact hstage ▸ hput
  · have ho : s.obeyed .handle = none := by rw [obeyed, if_neg hrun]
    exact .keep (by rw [due, ho, Option.bind_none]) rfl

theorem stageStep_receive (s : State R N) : StageStep s .receive (s.act .receive).stage := by
  rw [act]
  split_ifs with hrun
  · have hother : (∀ payload, s.reader.next.1 ≠ .payload payload) → s.due .receive = none := by
      intro h
      rw [due, handled_of_other h, Option.bind_none]
    unfold receiveNext
    rcases hn : s.reader.next with ⟨payload | _ | cutShort | fault, reader⟩
    · have hdue : s.due .receive = s.ownAnswer payload := by
        rw [due, handled_of_payload hrun hn, Option.bind_some]
      have hput := StageStep.put (s := s) (a := .receive)
      rw [hdue] at hput
      exact stage_handlePayload ({ s with reader } : State R N) payload ▸ hput
    · exact .keep (hother (hn ▸ fun _ => Frame.Received.noConfusion)) rfl
    · have hdue := hother (hn ▸ fun _ => Frame.Received.noConfusion)
      dsimp only
      rw [stage_stop]
      cases cutShort <;> exact .fail _ hrun (.inl rfl) hdue
    · dsimp only
      rw [stage_stop]
      exact .fail _ hrun (.inl rfl) (hother (hn ▸ fun _ => Frame.Received.noConfusion))
  · have hp : s.handled .receive = none := by rw [handled, if_neg hrun]
    exact .keep (by rw [due, hp, Option.bind_none]) rfl

theorem stageStep_notice (s : State R N) : StageStep s .notice (s.act .notice).stage := by
  rw [act]
  unfold noticeOutbox
  split
  · rename_i hphase _
    rw [stage_stop]
    exact .fail _ (by rw [isRunning, hphase]) (.inr rfl) rfl
  · rename_i hphase _
    rw [stage_stop]
    exact .fail _ (by rw [isRunning, hphase]) (.inr rfl) rfl
  · exact .keep rfl rfl
  · rename_i hphase hwriting
    refine .conclude rfl hphase (Bool.eq_false_iff.2 fun hactive => hwriting ?_)
    exact Outbox.isActive_iff.1 hactive
  · exact .keep rfl rfl

theorem stage_act (s : State R N) (a : Action) : StageStep s a (s.act a).stage := by
  cases a with
  | handle => exact stageStep_handle s
  | receive => exact stageStep_receive s
  | notice => exact stageStep_notice s
  | release =>
    rw [act]
    split_ifs with h
    · rw [stage_stop]
      simp only [Bool.and_eq_true] at h
      exact .close h.1.1 (.inr rfl) rfl
    · exact .keep rfl rfl
  | respond ticket outcome => exact stage_respond s ticket outcome ▸ .put
  | write => exact .write rfl
  | setSink mode => exact .setMode mode rfl
  | send m p transient => exact .keep rfl (stage_send s m p transient)
  | notify m p => exact .keep rfl (stage_notify s m p)
  | poll call =>
    rw [act]
    split_ifs
    · exact .keep rfl (stage_poll s call)
    · exact .keep rfl rfl
  | cancel call =>
    rw [act]
    split_ifs
    · exact .keep rfl (stage_cancel s call)
    · exact .keep rfl rfl
  | dropCall call =>
    rw [act]
    split_ifs
    · exact .keep rfl (stage_dropCall s call)
    · exact .keep rfl rfl
  | dropTicket ticket => exact .keep rfl (stage_dropTicket s ticket)
  | dropEvents => exact .keep rfl (stage_dropEvents s)
  | countPending => exact .keep rfl (stage_countPending s)
  | close => exact .keep rfl (stage_command s .close)
  | pollWaiter waiter => exact .keep rfl (stage_pollWaiter s waiter)
  | _ => exact .keep rfl rfl

/-- What is due is sent as long as the outbox takes envelopes, and nothing else is sent. -/
theorem sentBy_eq_due (s : State R N) (a : Action) :
    s.sentBy a = if s.outbox.isActive then (s.due a).toList else [] := by
  have hstep := stage_act s a
  have houtbox : (s.act a).outbox = (s.act a).stage.2 := rfl
  have hnone : s.due a = none → Outbox.Quiet s.outbox (s.act a).outbox →
      s.sentBy a = if s.outbox.isActive then (s.due a).toList else [] := by
    intro hdue hquiet
    rw [hdue, Option.toList_none, ite_self]
    exact List.drop_eq_nil_of_le hquiet.size_le
  generalize (s.act a).stage = p at hstep houtbox
  cases hstep with
  | put =>
    cases hdue : s.due a with
    | none =>
      rw [Option.toList_none, ite_self]
      exact sentBy_of_outbox (by rw [houtbox, hdue, Option.elim_none])
    | some e =>
      have hput : (s.act a).outbox = s.outbox.put e := by rw [houtbox, hdue, Option.elim_some]
      split_ifs with hactive
      · exact sentBy_of_put hactive hput
      · exact sentBy_of_outbox (hput.trans (if_neg hactive))
  | setMode mode ha => exact hnone (ha ▸ rfl) (houtbox ▸ .setMode _ mode)
  | write ha => exact hnone (ha ▸ rfl) (houtbox ▸ .step _)
  | close _ _ hdue => exact hnone hdue (houtbox ▸ .closeOff _)
  | fail _ _ _ hdue => exact hnone hdue (houtbox ▸ .abandon _)
  | conclude ha => exact hnone (ha ▸ rfl) (houtbox ▸ .same _)

end State

end PeerRpc.Session
