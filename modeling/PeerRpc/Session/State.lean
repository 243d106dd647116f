import PeerRpc.Frame.Reader
import PeerRpc.Log
import PeerRpc.Session.Config
import PeerRpc.Session.Error
import PeerRpc.Session.Outbox

/-!
# The state of a session

A session has two sides. Handles queue *commands* and hold *calls*, *reply tickets* and *waiters*;
the task works off the commands and the payloads that arrive, matches responses to the calls that
are open, and delivers *events*. Calls, tickets and waiters are numbered from zero in the order in
which they are made.
-/

namespace PeerRpc.Session

open Rpc (Envelope Failure Id Registry)

/-- How a call ended. -/
abbrev Outcome := Except CallError Json

/-- A call that was sent. -/
structure Call where
  id : Id
  method : String
  /-- What the task has found out about it, of which the caller is told the first. -/
  outcomes : List Outcome := []
  /-- Whether the caller has given it up. -/
  cancelled : Bool := false
  /-- Whether the caller has been told how it ended. -/
  finished : Bool := false
  /-- Whether the caller still holds it; a held call keeps the session going. -/
  held : Bool := true
  /-- Whether the caller lets go of it when told how it ended. -/
  transient : Bool := false
deriving Repr

/-- The right to answer a request once. -/
structure Ticket where
  id : Id
  method : String
  /-- Whether it has been used or thrown away. -/
  spent : Bool := false
deriving Repr

/-- Someone who waits for the session. -/
inductive Waiter where
  /-- Wants to know the number of open calls, and may have been told. -/
  | counting (answer : Option Nat)
  /-- Wants to know when and how the session stops. -/
  | joining
  /-- Has been told, or has gone away. -/
  | gone
deriving DecidableEq, Repr

/-- Who learns how the session stopped. -/
inductive Report where
  /-- Whoever is first in the line of those who wait. -/
  | available
  /-- The first in the line, who has already asked. -/
  | claimed
  /-- Nobody any more. -/
  | spent
deriving DecidableEq, Repr

/-- What a handle asks of the task. -/
inductive Command where
  /-- Send a request and keep its call open. -/
  | request (id : Id) (method : String) (params : Option Json) (call : Nat)
  | notify (method : String) (params : Option Json)
  /-- Close a call without waiting for the response, and perhaps tell the peer. -/
  | abandon (id : Id) (tellPeer : Bool)
  /-- Tell a waiter the number of open calls. -/
  | count (waiter : Nat)
  | close
deriving Repr

/-- Something that the session tells its owner. -/
inductive Event (R N : Type) where
  | notification (value : N)
  /-- The peer sent a request, which can be answered with a ticket. -/
  | request (id : Id) (value : R) (ticket : Nat)
  /-- The peer sent a message that could not be used. -/
  | protocolError (error : ProtocolError)

/-- Why the task stops. -/
inductive Stop where
  /-- It was asked to, or nobody holds the session any more. -/
  | closed
  /-- The peer has closed its side. -/
  | disconnected
  /-- Something is broken. -/
  | failed (error : Error)

/-- Whether the task is at work. -/
inductive Phase where
  /-- It is. -/
  | running
  /-- It has stopped working and waits for the outbox to finish. -/
  | flushing
  /-- It is over. -/
  | stopped (result : Except Error Unit)

/-- The state of a session whose requests become values of `R` and notifications values of `N`. -/
structure State (R N : Type) where
  /-- The methods that the owner handles. -/
  registry : Registry R N
  /-- Whether the peer is told when a call is given up. -/
  cancelOnAbandon : Bool
  /-- Where payloads come from. -/
  reader : Frame.Reader
  /-- Where envelopes go. -/
  outbox : Outbox := {}
  /-- Whether the task is at work. -/
  phase : Phase := .running
  /-- The commands that have not been handled, the oldest first. -/
  commands : List Command := []
  /-- The open calls: identifiers and the numbers of their calls. -/
  pending : List (Id × Nat) := []
  /-- The events that have not been taken, the oldest first. -/
  events : Array (Event R N) := #[]
  /-- Whether someone takes events. -/
  listening : Bool := true
  /-- The identifier of the next call. -/
  nextId : Int64 := 1
  handles : Nat := 1
  calls : Array Call := #[]
  tickets : Array Ticket := #[]
  waiters : Array Waiter := #[]
  /-- The waiters that want to know how the session stops, in the order in which they asked. -/
  line : List Nat := []
  /-- Who learns how the session stopped. -/
  report : Report := .available
  /-- What has happened, the oldest first. -/
  records : Array Log.Record := #[]

namespace State

variable {R N : Type}

/-- Whether the task takes commands. -/
def isRunning (s : State R N) : Bool :=
  match s.phase with
  | .running => true
  | _ => false

/-- Whether the session has stopped, or is about to. -/
def isClosed (s : State R N) : Bool :=
  !s.isRunning

/-- The number of open calls, as seen from outside: none once the session is closed. -/
def pendingCount (s : State R N) : Nat :=
  if s.isRunning then s.pending.length else 0

/-- Whether anything keeps the session going: a handle, a call or a waiter. -/
def isHeld (s : State R N) : Bool :=
  0 < s.handles || s.calls.any (·.held) || s.waiters.any (· ≠ .gone)

/-- The state with one more record of the session. -/
def log (s : State R N) (level : Log.Level) (text : String) : State R N :=
  { s with records := s.records.push ⟨level, Log.sessionTarget, text⟩ }

/-- The state with one more envelope to write. -/
def queue (s : State R N) (e : Envelope) : State R N :=
  { s with outbox := s.outbox.put e }

/-- The state in which a call has one more outcome. -/
def settleCall (s : State R N) (call : Nat) (outcome : Outcome) : State R N :=
  { s with calls := s.calls.modify call fun c => { c with outcomes := c.outcomes ++ [outcome] } }

/-- The state in which a waiter knows the number of open calls. -/
def answerWaiter (s : State R N) (waiter : Nat) (count : Nat) : State R N :=
  { s with
    waiters := s.waiters.modify waiter fun
      | .counting _ => .counting (some count)
      | other => other }

/-- The state with one more event that needs no answer; without a listener it is dropped. -/
def emit (s : State R N) (e : Event R N) : State R N :=
  if s.listening then { s with events := s.events.push e } else s

/-- The number of the open call of an identifier. -/
def pendingCall? (s : State R N) (id : Id) : Option Nat :=
  (s.pending.find? fun p => p.1 = id).map (·.2)

/-- The state in which the call of an identifier is no longer open. -/
def closePending (s : State R N) (id : Id) : State R N :=
  { s with pending := s.pending.filter fun p => p.1 ≠ id }

end State

end PeerRpc.Session
