import PeerRpc.Frame.Scan
import PeerRpc.Rpc.Envelope

/-!
# Writing frames to a sink

A sink takes the bytes that are offered to it, holds them up, or fails, as its mode says. A frame
is written in full and then flushed.
-/

namespace PeerRpc.Frame

/-- How a sink behaves. -/
inductive SinkMode where
  /-- Takes everything. -/
  | accepting
  /-- Fails when bytes are written. -/
  | failingWrite
  /-- Takes no byte of what is written. -/
  | full
  /-- Takes bytes, and fails when they are flushed. -/
  | failingFlush
  /-- Takes bytes, and fails when it is shut down. -/
  | failingShutdown
  /-- Holds up what is written. -/
  | blocking
deriving DecidableEq, Repr

/-- The state of a sink. -/
structure Sink where
  /-- How it behaves now. -/
  mode : SinkMode := .accepting
  /-- How many bytes it takes in one piece at most, if there is a bound. -/
  piece : Option Nat := none
  /-- The bytes it has taken, the last one first. -/
  taken : List UInt8 := []
  /-- Whether it has been shut down. -/
  shut : Bool := false
deriving Repr

/-- How far a write has come. -/
inductive Written where
  /-- Everything is written. -/
  | done
  /-- The sink holds up the bytes that are left. -/
  | blocked (left : List UInt8)
  /-- The sink has failed. -/
  | failed (fault : ChannelFault)
deriving Repr

namespace Sink

/-- The bytes the sink has taken, in the order in which they came. -/
def bytes (s : Sink) : List UInt8 :=
  s.taken.reverse

/-- How many bytes the sink takes in one piece, if there is a bound. -/
def room (s : Sink) : Option Nat :=
  match s.mode with
  | .full => some 0
  | _ => s.piece

/-- The sink with some more bytes. -/
def take (s : Sink) (bytes : List UInt8) : Sink :=
  { s with taken := bytes.reverse ++ s.taken }

/-- Writes some bytes, piece by piece. A sink that takes nothing of what is left has failed. -/
def write (s : Sink) (bytes : List UInt8) : Written × Sink :=
  match bytes with
  | [] => (.done, s)
  | b :: rest =>
    match s.mode with
    | .blocking => (.blocked (b :: rest), s)
    | .failingWrite => (.failed (.io "write failed"), s)
    | _ =>
      match s.room with
      | none => (.done, s.take (b :: rest))
      | some 0 => (.failed (.io "write zero"), s)
      | some (n + 1) => (s.take (b :: rest.take n)).write (rest.drop n)
termination_by bytes.length
decreasing_by
  rw [List.length_drop, List.length_cons]
  omega

/-- Flushes what has been written. -/
def flush (s : Sink) : Except ChannelFault Unit :=
  match s.mode with
  | .failingFlush => .error (.io "flush failed")
  | _ => .ok ()

/-- Writes some bytes and flushes them. -/
def send (s : Sink) (bytes : List UInt8) : Written × Sink :=
  match s.write bytes with
  | (.done, s) =>
    match s.flush with
    | .ok () => (.done, s)
    | .error fault => (.failed fault, s)
  | other => other

/-- Writes a payload in a frame. -/
def sendPayload (s : Sink) (payload : List UInt8) : Written × Sink :=
  s.send (encode payload)

/-- Writes an envelope in a frame. -/
def sendEnvelope (s : Sink) (e : Rpc.Envelope) : Written × Sink :=
  s.sendPayload e.bytes

/-- Flushes what has been written and shuts the sink down. -/
def shutdown (s : Sink) : Except ChannelFault Unit × Sink :=
  match s.flush with
  | .error fault => (.error fault, s)
  | .ok () =>
    match s.mode with
    | .failingShutdown => (.error (.io "shutdown failed"), s)
    | _ => (.ok (), { s with shut := true })

end Sink

end PeerRpc.Frame
