import PeerRpc.Rpc.Catalog
import PeerRpc.Session.State

/-!
# The work of a session's task

The task handles commands in the order in which they were queued and payloads in the order in which
they arrive, and never waits for a write. `settle` lets it do all it can, lets the outbox write all
it can, and lets the task take note of how the writing ended.

A command to stop, or the loss of the last handle, leaves time to write what is queued; the end of
the source and every fault do not.
-/

namespace PeerRpc.Session

open Rpc (Envelope Failure Id Registry)

namespace State

variable {R N : Type}

/-! ## Stopping -/

/-- What becomes of a command that the task no longer handles. -/
def refuse (s : State R N) : Command → State R N
  | .request _ _ _ call => s.settleCall call (.error .closed)
  | .count waiter => s.answerWaiter waiter 0
  | _ => s

/-- The state once the task is over. -/
def conclude (s : State R N) (result : Except Error Unit) : State R N :=
  let s :=
    match result with
    | .error error => s.log .error ("Session failed: " ++ error.message)
    | .ok () => s
  { s.log .info "Session closed" with phase := .stopped result }

/-- Stops the task: commands still queued are refused, open calls fail, and the outbox gets no more
envelopes. -/
def stop (s : State R N) (reason : Stop) : State R N :=
  let s := s.commands.foldl refuse s
  let s := s.pending.foldl (fun s p => s.settleCall p.2 (.error .closed)) s
  let s := { s with commands := [], pending := [] }
  match reason with
  | .closed => { s with outbox := s.outbox.closeOff, phase := .flushing }
  | .disconnected => { s with outbox := s.outbox.closeOff.abandon }.conclude (.ok ())
  | .failed error => { s with outbox := s.outbox.closeOff.abandon }.conclude (.error error)

/-! ## Commands -/

/-- Tells the peer that a call has been given up. -/
def sendCancel (s : State R N) (id : Id) : State R N :=
  match Rpc.Catalog.cancel.params.encode ⟨id⟩ with
  | .ok params => s.queue (.notification Rpc.Catalog.cancel.name params)
  | .error fault => s.log .warn ("Failed to encode cancel notification: " ++ fault.message)

/-- Handles a command. -/
def handleCommand (s : State R N) : Command → State R N
  | .request id method params call =>
    match s.pendingCall? id with
    | some _ =>
      ((s.log .warn ("Request id " ++ id.describe ++ " is already pending")).settleCall call
        (.error (.duplicateId id))).emit (.protocolError (.duplicateRequest id))
    | none =>
      { s with pending := s.pending ++ [(id, call)] }.queue (.request id method params)
  | .notify method params => s.queue (.notification method params)
  | .abandon id tellPeer =>
    match s.pendingCall? id with
    | none => s
    | some call =>
      let s := (s.closePending id).settleCall call (.error .cancelled)
      if tellPeer then s.sendCancel id else s
  | .count waiter => s.answerWaiter waiter s.pending.length
  | .close => s.stop .closed

/-- Handles the given commands, which are those of the queue, until the task stops. -/
def handleCommands : List Command → State R N → State R N
  | [], s => s
  | c :: rest, s =>
    let s := { s with commands := rest }.handleCommand c
    if s.isRunning then handleCommands rest s else s

/-! ## Payloads -/

/-- Delivers a request with a ticket to answer it; without a listener it is answered at once. -/
def deliverRequest (s : State R N) (id : Id) (method : String) (value : R) : State R N :=
  if s.listening then
    { s with
      tickets := s.tickets.push { id, method }
      events := s.events.push (.request id value s.tickets.size) }
  else s.queue (.failure id (.internalError "No handler for requests"))

/-- Handles a request of the peer. -/
def handleRequest (s : State R N) (id : Id) (method : String) (params : Option Json) :
    State R N :=
  match s.registry.decodeRequest method params with
  | .ok value => s.deliverRequest id method value
  | .error fault =>
    ((s.log .warn ("Rejecting request " ++ id.describe ++ ": " ++ fault.message)).queue
      (.failure id fault.toFailure)).emit (.protocolError (.decode (some id) fault))

/-- Handles a notification of the peer. -/
def handleNotification (s : State R N) (method : String) (params : Option Json) : State R N :=
  match s.registry.decodeNotification method params with
  | .ok value => s.emit (.notification value)
  | .error fault =>
    (s.log .warn ("Dropping notification: " ++ fault.message)).emit
      (.protocolError (.decode none fault))

/-- Handles a response of the peer: it settles the open call of its identifier. -/
def handleResponse (s : State R N) (r : Rpc.Response) : State R N :=
  match s.pendingCall? r.id with
  | none =>
    (s.log .warn ("Response for unknown request id " ++ r.id.describe)).emit
      (.protocolError (.unknownResponse r.id))
  | some call =>
    let s := s.closePending r.id
    match r.outcome with
    | .ok outcome => s.settleCall call (outcome.mapError .rpc)
    | .error fault =>
      ((s.log .warn ("Malformed response: " ++ fault.message)).settleCall call
        (.error (.malformedResponse fault.message))).emit
        (.protocolError (.malformedResponse fault))

/-- Handles a message of the peer. -/
def handleMessage (s : State R N) : Rpc.Message → State R N
  | .request id method params => s.handleRequest id method params
  | .notification method params => s.handleNotification method params
  | .response r => s.handleResponse r

/-- Handles a payload that is no message. If it looks like a request, it is answered. -/
def handleMalformed (s : State R N) (payload : List UInt8) (fault : Rpc.EnvelopeFault) :
    State R N :=
  let s := s.log .warn ("Malformed message: " ++ fault.message)
  let s :=
    match Rpc.requestIdOf? payload with
    | some id => s.queue (.failure id (.invalidRequest fault.message))
    | none => s
  s.emit (.protocolError (.malformedEnvelope fault))

/-- Handles a payload. -/
def handlePayload (s : State R N) (payload : List UInt8) : State R N :=
  match Rpc.Message.ofPayload payload with
  | .ok message => s.handleMessage message
  | .error fault => s.handleMalformed payload fault

/-- Handles what the reader gives next. -/
def receiveNext (s : State R N) : State R N :=
  match s.reader.next with
  | (.payload payload, reader) => { s with reader }.handlePayload payload
  | (.waiting, reader) => { s with reader }
  | (.ended cutShort, reader) =>
    let s := { s with reader }
    let s :=
      if cutShort then
        { s with
          records := s.records.push ⟨.warn, Log.transportTarget,
            "Source closed in the middle of a message; discarding partial frame"⟩ }
      else s
    (s.log .info "Peer closed the connection").stop .disconnected
  | (.failed fault, reader) => { s with reader }.stop (.failed (.channel fault))

theorem emit_keeps (s : State R N) (e : Event R N) :
    (s.emit e).reader = s.reader ∧ (s.emit e).phase = s.phase := by
  unfold emit
  split <;> exact ⟨rfl, rfl⟩

theorem handleMessage_keeps (s : State R N) (message : Rpc.Message) :
    (s.handleMessage message).reader = s.reader ∧ (s.handleMessage message).phase = s.phase := by
  cases message with
  | request id method params =>
    unfold handleMessage handleRequest
    dsimp only
    split
    · unfold deliverRequest
      split <;> exact ⟨rfl, rfl⟩
    · exact emit_keeps _ _
  | notification method params =>
    unfold handleMessage handleNotification
    dsimp only
    split <;> exact emit_keeps _ _
  | response r =>
    unfold handleMessage handleResponse
    dsimp only
    split
    · exact emit_keeps _ _
    · split
      · exact ⟨rfl, rfl⟩
      · exact emit_keeps _ _

/-- Handling a payload neither reads another one nor stops the task. -/
theorem handlePayload_keeps (s : State R N) (payload : List UInt8) :
    (s.handlePayload payload).reader = s.reader ∧
      (s.handlePayload payload).phase = s.phase := by
  unfold handlePayload
  split
  · exact handleMessage_keeps _ _
  · unfold handleMalformed
    dsimp only
    split <;> exact emit_keeps _ _

/-- Handles the payloads that the reader gives, until it has to wait or the source is over. -/
def receive (s : State R N) : State R N :=
  match h : s.reader.next with
  | (.payload payload, reader) =>
    have := Frame.Reader.next_remaining h
    receive ({ s with reader }.handlePayload payload)
  | _ => s.receiveNext
termination_by s.reader.remaining
decreasing_by rwa [(handlePayload_keeps _ payload).1]

/-! ## Settling -/

/-- Lets the task do all it can. -/
def work (s : State R N) : State R N :=
  if s.isRunning then
    let s := handleCommands s.commands s
    if s.isRunning then
      if s.isHeld then s.receive else s.stop .closed
    else s
  else s

/-- Lets the outbox write all it can. -/
def write (s : State R N) : State R N :=
  { s with outbox := s.outbox.run }

/-- Lets the task take note of how the writing ended. -/
def noticeOutbox (s : State R N) : State R N :=
  match s.phase, s.outbox.writing with
  | .running, .complete => s.stop (.failed (.channel .closed))
  | .running, .broken fault => s.stop (.failed (.channel fault))
  | .flushing, .active => s
  | .flushing, _ => s.conclude (.ok ())
  | _, _ => s

/-- Lets everything happen that can happen without the world outside. -/
def settle (s : State R N) : State R N :=
  s.work.write.noticeOutbox

end State

end PeerRpc.Session
