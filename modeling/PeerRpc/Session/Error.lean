import PeerRpc.Frame.Fault
import PeerRpc.Rpc.Message
import PeerRpc.Rpc.Registry

/-!
# What can go wrong in a session

A message that cannot be used is reported as an event, and the session goes on. A call that brings
no result tells its caller why. A fault of the channel ends the session.
-/

namespace PeerRpc.Session

open Rpc (Id)

/-- Why a message could not be used. -/
inductive ProtocolError where
  /-- The payload is no message. -/
  | malformedEnvelope (fault : Rpc.EnvelopeFault)
  /-- A call could not be made into a value; a request has an identifier. -/
  | decode (id : Option Id) (fault : Rpc.CallFault)
  /-- A response answers no open call. -/
  | unknownResponse (id : Id)
  /-- A response has no outcome. -/
  | malformedResponse (fault : Rpc.EnvelopeFault)
  /-- A new call has the identifier of an open one. -/
  | duplicateRequest (id : Id)
deriving Repr

namespace ProtocolError

/-- The wording of a protocol error. -/
def message : ProtocolError → String
  | malformedEnvelope fault => fault.message
  | decode (some id) fault => "request " ++ id.describe ++ ": " ++ fault.message
  | decode none fault => "notification: " ++ fault.message
  | unknownResponse id => "response for unknown request id " ++ id.describe
  | malformedResponse fault => fault.message
  | duplicateRequest id => "request id " ++ id.describe ++ " is already pending"

/-- The wordings of what lies behind an error, the nearest first. -/
def causes : ProtocolError → List String
  | malformedEnvelope fault => fault.message :: fault.causes
  | decode _ fault => fault.message :: fault.causes
  | malformedResponse fault => fault.message :: fault.causes
  | unknownResponse _ => []
  | duplicateRequest _ => []

end ProtocolError

/-- Why a call brings no result. -/
inductive CallError where
  /-- The peer answered with an error. -/
  | rpc (failure : Rpc.Failure)
  /-- The session has stopped. -/
  | closed
  /-- The caller gave the call up. -/
  | cancelled
  /-- The parameters cannot be written. -/
  | encode (fault : Json.Fault)
  /-- The result does not fit the method. -/
  | decode (fault : Json.Fault)
  /-- The response has no outcome, for a reason given in words. -/
  | malformedResponse (reason : String)
  /-- The call had the identifier of an open one. -/
  | duplicateId (id : Id)
deriving Repr

namespace CallError

/-- The wording of a call's error. -/
def message : CallError → String
  | rpc failure => "peer returned error: " ++ failure.describe
  | closed => "session closed"
  | cancelled => "request cancelled"
  | encode fault => "failed to encode params: " ++ fault.message
  | decode fault => "failed to decode result: " ++ fault.message
  | malformedResponse reason => "malformed response: " ++ reason
  | duplicateId id => "request id " ++ id.describe ++ " is already pending"

/-- The wordings of what lies behind an error, the nearest first. -/
def causes : CallError → List String
  | rpc failure => [failure.describe]
  | encode fault => [fault.message]
  | decode fault => [fault.message]
  | _ => []

end CallError

/-- Why a session ended before it was asked to. -/
inductive Error where
  /-- The channel is at fault. -/
  | channel (fault : Frame.ChannelFault)
  /-- The session itself broke down, for a reason given in words. -/
  | task (reason : String)
deriving Repr

namespace Error

/-- The wording of a session's error. -/
def message : Error → String
  | channel fault => "transport failure: " ++ fault.message
  | task reason => "session task failed: " ++ reason

/-- The wordings of what lies behind an error, the nearest first. -/
def causes : Error → List String
  | channel fault => fault.message :: fault.causes
  | task _ => []

end Error

end PeerRpc.Session
