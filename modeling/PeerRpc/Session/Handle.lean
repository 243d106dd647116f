import PeerRpc.Session.Task

/-!
# Using a session

What the owner of a session can do with it: send requests and notifications, ask how a call has
ended, give calls up, answer requests, wait, and stop the session. Nothing here waits: what asks the
task for something queues a command, and what depends on the task is looked at again later.

Every function that can be refused gives the reason, and what it gives comes before the state after
it. A request takes an identifier whenever its parameters can be written, even if the session has
stopped.
-/

namespace PeerRpc.Session

open Rpc (Failure Id NotificationMethod Registry RequestMethod)

/-- What a waiter learns. -/
inductive News where
  | count (n : Nat)
  | stopped (result : Except Error Unit)

/-- What the owner learns when it asks for the next event. -/
inductive NextEvent (R N : Type) where
  | event (e : Event R N)
  /-- There is none yet. -/
  | waiting
  /-- There will be none any more. -/
  | ended

/-- The event, if there was one. -/
def NextEvent.event? {R N : Type} : NextEvent R N → Option (Event R N)
  | .event e => some e
  | _ => none

namespace State

variable {R N : Type}

/-- A session that has just been started. Its records begin with those of the registry. -/
def start (registry : Registry R N) (config : Config) : State R N :=
  let s : State R N :=
    { registry, cancelOnAbandon := config.cancelOnAbandon
      reader := .start config.maxMessageSize config.readChunkSize
      records := registry.records.toArray }
  s.log .info "Session started"

/-- The state with one more command; it is refused once the task has stopped. -/
def command (s : State R N) (c : Command) : State R N :=
  if s.isRunning then { s with commands := s.commands ++ [c] } else s

/-! ## Calls -/

/-- Sends a request whose parameters are written already. Gives the number of the call. -/
def sendWritten (s : State R N) (method : String) (params : Option Json) (transient : Bool) :
    Except CallError Nat × State R N :=
  let id := Id.number s.nextId
  let s := { s with nextId := s.nextId + 1 }
  if s.isRunning then
    let call := s.calls.size
    let made : Call := { id, method, transient }
    (.ok call, { s with calls := s.calls.push made }.command (.request id method params call))
  else (.error .closed, s)

/-- Sends a request. Gives the number of the call. A transient call is let go of as soon as the
caller knows how it ended. -/
def send (s : State R N) (m : RequestMethod) (p : m.Params) (transient : Bool) :
    Except CallError Nat × State R N :=
  match m.params.encode p with
  | .error fault => (.error (.encode fault), s)
  | .ok params => s.sendWritten m.name params transient

/-- Sends a notification. -/
def notify (s : State R N) (m : NotificationMethod) (p : m.Params) :
    Except CallError Unit × State R N :=
  match m.params.encode p with
  | .error fault => (.error (.encode fault), s)
  | .ok params =>
    if s.isRunning then (.ok (), s.command (.notify m.name params)) else (.error .closed, s)

/-- The state in which the caller has been told how a call ended. -/
def finishCall (s : State R N) (call : Nat) : State R N :=
  { s with
    calls := s.calls.modify call fun c =>
      { c with finished := true, held := c.held && !c.transient } }

/-- Asks how a call ended; `none` if it is still open. A caller that has been told already, or has
given the call up, learns that it was cancelled. -/
def poll (s : State R N) (call : Nat) : Option Outcome × State R N :=
  match s.calls[call]? with
  | none => (none, s)
  | some c =>
    if c.finished || c.cancelled then (some (.error .cancelled), s.finishCall call)
    else
      match c.outcomes.head? with
      | none => (none, s)
      | some outcome => (some outcome, s.finishCall call)

/-- The result of a call, read as the method's type. -/
def result (m : RequestMethod) (outcome : Outcome) : Except CallError m.Result := do
  (m.readResult (← outcome)).mapError .decode

/-- Tells the task that a call is given up. -/
def abandon (s : State R N) (c : Call) : State R N :=
  s.command (.abandon c.id s.cancelOnAbandon)

/-- Gives a call up, and keeps holding it. -/
def cancel (s : State R N) (call : Nat) : State R N :=
  match s.calls[call]? with
  | none => s
  | some c =>
    if c.finished || c.cancelled then s
    else
      { s with calls := s.calls.modify call fun c => { c with cancelled := true } }.abandon c

/-- Lets go of a call; one that has not ended is given up. -/
def dropCall (s : State R N) (call : Nat) : State R N :=
  match s.calls[call]? with
  | none => s
  | some c =>
    let s := if c.held && !c.finished && !c.cancelled then s.abandon c else s
    { s with calls := s.calls.modify call fun c => { c with held := false } }

/-! ## Answers -/

/-- The ticket of a number, if it can still be used. -/
def ticket? (s : State R N) (ticket : Nat) : Option Ticket :=
  match s.tickets[ticket]? with
  | some t => if t.spent then none else some t
  | none => none

/-- The state in which a ticket cannot be used any more. -/
def spend (s : State R N) (ticket : Nat) : State R N :=
  { s with tickets := s.tickets.modify ticket fun t => { t with spent := true } }

/-- Answers a request with an outcome; `none` if the ticket has been used. -/
def respond (s : State R N) (ticket : Nat) (outcome : Except Failure Json) :
    Option (Except CallError Unit) × State R N :=
  match s.ticket? ticket with
  | none => (none, s)
  | some t =>
    let s := s.spend ticket
    if s.isRunning && s.outbox.isActive then (some (.ok ()), s.queue (.response t.id outcome))
    else (some (.error .closed), s)

/-- The outcome of a request whose result may fail to be written. -/
def outcomeOf : Except Json.Fault Json → Except Failure Json
  | .ok v => .ok v.sorted
  | .error fault => .error (.internalError ("Failed to serialize result: " ++ fault.message))

/-- Throws a ticket away. -/
def dropTicket (s : State R N) (ticket : Nat) : State R N :=
  match s.ticket? ticket with
  | none => s
  | some t =>
    (s.spend ticket).log .warn
      ("Request " ++ t.id.describe ++ " (" ++ t.method ++ ") dropped without a response")

/-! ## Events -/

/-- Takes the event that has waited longest. The events end once the session has stopped and all of
them have been taken. -/
def nextEvent (s : State R N) : NextEvent R N × State R N :=
  match s.events.toList with
  | e :: rest => (.event e, { s with events := rest.toArray })
  | [] => (if s.isRunning then .waiting else .ended, s)

/-- Takes all events that have been delivered. -/
def takeEvents (s : State R N) : List (Event R N) × State R N :=
  (s.events.toList, { s with events := #[] })

/-- Stops listening: the events that have not been taken are thrown away with their tickets. -/
def dropEvents (s : State R N) : State R N :=
  let s := s.events.foldl
    (fun s e => match e with
      | .request _ _ ticket => s.dropTicket ticket
      | _ => s) s
  { s with events := #[], listening := false }

/-- Takes the records of what has happened. -/
def takeRecords (s : State R N) : List Log.Record × State R N :=
  (s.records.toList, { s with records := #[] })

/-! ## Handles and waiters -/

/-- The state with one more handle. -/
def addHandle (s : State R N) : State R N :=
  { s with handles := s.handles + 1 }

/-- The state with one handle less. -/
def dropHandle (s : State R N) : State R N :=
  { s with handles := s.handles - 1 }

/-- The state in which a waiter has been told, or has gone away. -/
def release (s : State R N) (waiter : Nat) : State R N :=
  { s with
    waiters := s.waiters.modify waiter fun _ => .gone
    line := s.line.filter (· ≠ waiter) }

/-- Asks whether a waiter that wants to know how the session stops can be told. Only the first in
the line is told, and only one waiter learns of an error: the first one who asks for the report
claims it, and those behind learn no more than that the session has stopped. -/
def pollJoin (s : State R N) (waiter : Nat) : Option News × State R N :=
  if s.line.head? = some waiter then
    match s.report, s.phase with
    | .spent, _ => (some (.stopped (.ok ())), s.release waiter)
    | _, .stopped result => (some (.stopped result), { s.release waiter with report := .spent })
    | _, _ => (none, { s with report := .claimed })
  else (none, s)

/-- Asks whether a waiter can be told what it wants to know. -/
def pollWaiter (s : State R N) (waiter : Nat) : Option News × State R N :=
  match s.waiters[waiter]? with
  | some (.counting (some n)) => (some (.count n), s.release waiter)
  | some .joining => s.pollJoin waiter
  | _ => (none, s)

/-- Lets a waiter go away. If it had claimed the report, nobody gets it any more. -/
def dropWaiter (s : State R N) (waiter : Nat) : State R N :=
  let report :=
    if s.line.head? = some waiter && s.report = .claimed then .spent else s.report
  { s.release waiter with report }

/-- Asks for the number of open calls. Gives the number of the waiter. -/
def countPending (s : State R N) : Nat × State R N :=
  let waiter := s.waiters.size
  if s.isRunning then
    (waiter, { s with waiters := s.waiters.push (.counting none) }.command (.count waiter))
  else (waiter, { s with waiters := s.waiters.push (.counting (some 0)) })

/-- Asks to be told how the session stops. Gives the number of the waiter. -/
def wait (s : State R N) : Nat × State R N :=
  let waiter := s.waiters.size
  (waiter, { s with waiters := s.waiters.push .joining, line := s.line ++ [waiter] })

/-- Stops the session and asks to be told when it has stopped. Gives the number of the waiter. -/
def close (s : State R N) : Nat × State R N :=
  (s.command .close).wait

/-! ## The world outside -/

/-- Bytes arrive from the peer. -/
def arrive (s : State R N) (bytes : List UInt8) : State R N :=
  { s with reader := s.reader.push bytes }

/-- The source ends or fails after the bytes that have arrived. -/
def closeSource (s : State R N) (ending : Frame.Ending) : State R N :=
  { s with reader := s.reader.close ending }

/-- The sink behaves in another way from now on. -/
def setSink (s : State R N) (mode : Frame.SinkMode) : State R N :=
  { s with outbox := { s.outbox with sink := { s.outbox.sink with mode } } }

end State

end PeerRpc.Session
