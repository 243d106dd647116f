import PeerRpc.Frame.Writer

/-!
# The outbox

Envelopes wait in a queue and are written one after the other, each in a frame of its own. When no
more envelopes can come and the queue is empty, the sink is shut down. A fault of the sink ends the
writing; what is still in the queue is lost.
-/

namespace PeerRpc.Session

open Rpc (Envelope)

/-- Whether the outbox is still writing. -/
inductive Writing where
  /-- It writes what comes. -/
  | active
  /-- It has written everything and tried to shut the sink down. -/
  | complete
  /-- It has stopped at a fault of the sink. -/
  | broken (fault : Frame.ChannelFault)
  /-- It was stopped from outside. -/
  | abandoned
deriving Repr

/-- The state of an outbox. -/
structure Outbox where
  /-- The envelopes that have not been begun, in the order in which they are written. -/
  queue : Array Envelope := #[]
  /-- What is left of the frame that is being written. -/
  unsent : List UInt8 := []
  /-- Whether more envelopes can come. -/
  expecting : Bool := true
  /-- Whether it is still writing. -/
  writing : Writing := .active
  sink : Frame.Sink := {}
deriving Repr

namespace Outbox

/-- Whether an envelope that is put in is going to be looked at. -/
def isActive (o : Outbox) : Bool :=
  match o.writing with
  | .active => true
  | _ => false

/-- The outbox with one more envelope; a stopped one drops it. -/
def put (o : Outbox) (e : Envelope) : Outbox :=
  if o.isActive then { o with queue := o.queue.push e } else o

/-- The outbox to which no more envelopes can come. -/
def closeOff (o : Outbox) : Outbox :=
  { o with expecting := false }

/-- The outbox stopped from outside: nothing more is written. -/
def abandon (o : Outbox) : Outbox :=
  if o.isActive then { o with queue := #[], unsent := [], writing := .abandoned } else o

/-- Writes some bytes as far as the sink takes them. -/
def send (o : Outbox) (bytes : List UInt8) : Outbox :=
  match o.sink.send bytes with
  | (.done, sink) => { o with unsent := [], sink }
  | (.blocked left, sink) => { o with unsent := left, sink }
  | (.failed fault, sink) => { o with queue := #[], unsent := [], writing := .broken fault, sink }

/-- Whether the next envelope can be begun. -/
def isReady (o : Outbox) : Bool :=
  o.isActive && o.unsent.isEmpty

/-- Writes the given envelopes until the sink stops it. If it is only held up, those that have not
been begun go back into the queue. -/
def sendAll : List Envelope → Outbox → Outbox
  | [], o => o
  | e :: rest, o =>
    if o.isReady then sendAll rest (o.send (Frame.encode e.bytes))
    else if o.isActive then { o with queue := (e :: rest).toArray }
    else o

/-- Shuts the sink down if everything is written and nothing more can come. A sink that fails to
shut down is left as it is. -/
def finish (o : Outbox) : Outbox :=
  if o.isReady && o.queue.isEmpty && !o.expecting then
    { o with writing := .complete, sink := o.sink.shutdown.2 }
  else o

/-- Writes as much as the sink takes. -/
def run (o : Outbox) : Outbox :=
  if o.isActive then
    let o := if o.unsent.isEmpty then o else o.send o.unsent
    (sendAll o.queue.toList { o with queue := #[] }).finish
  else o

end Outbox

end PeerRpc.Session
