import PeerRpc.Rpc.Payload

/-!
# Messages

Which of its fields an envelope has tells what message it is: with a method and an identifier it is
a request, with a method alone a notification, with an identifier alone a response. A response must
hold either a result or an error.
-/

namespace PeerRpc.Rpc

/-- A response, its outcome not yet determined. -/
structure Response where
  /-- The identifier of the request that is answered. -/
  id : Id
  /-- The result, if there is one. -/
  result : Option Json
  /-- The error, if there is one. -/
  error : Option Failure
deriving Repr, BEq

/-- A message with its kind determined. -/
inductive Message where
  /-- A call that asks for a response. -/
  | request (id : Id) (method : String) (params : Option Json)
  /-- A call without a response. -/
  | notification (method : String) (params : Option Json)
  /-- The answer to a request. -/
  | response (r : Response)
deriving Repr, BEq

/-- Why a payload is no message, or a response has no outcome. -/
inductive EnvelopeFault where
  /-- The payload is not an envelope. -/
  | unreadable (fault : Json.Fault)
  /-- There is neither a method nor an identifier. -/
  | neitherMethodNorId
  /-- A response has both a result and an error. -/
  | resultAndError (id : Id)
  /-- A response has neither a result nor an error. -/
  | noOutcome (id : Id)
deriving Repr

/-- The wording of an envelope's fault. -/
def EnvelopeFault.message : EnvelopeFault → String
  | unreadable fault => "invalid envelope: " ++ fault.message
  | neitherMethodNorId => "malformed envelope: neither method nor id present"
  | resultAndError id => "response " ++ id.describe ++ " carries both result and error"
  | noOutcome id => "response " ++ id.describe ++ " carries neither result nor error"

/-- The wordings of what lies behind a fault, the nearest first. -/
def EnvelopeFault.causes : EnvelopeFault → List String
  | unreadable fault => [fault.message]
  | _ => []

/-- What message an envelope is. -/
def Envelope.classify (e : Envelope) : Except EnvelopeFault Message :=
  match e.method, e.id with
  | some method, some id => .ok (.request id method e.params)
  | some method, none => .ok (.notification method e.params)
  | none, some id => .ok (.response ⟨id, e.result, e.error⟩)
  | none, none => .error .neitherMethodNorId

/-- The envelope of a payload, its fault put as an envelope's fault. -/
def Envelope.ofPayload? (payload : List UInt8) : Except EnvelopeFault Envelope :=
  (Envelope.ofPayload payload).mapError .unreadable

/-- The message that a payload holds. -/
def Message.ofPayload (payload : List UInt8) : Except EnvelopeFault Message := do
  (← Envelope.ofPayload? payload).classify

/-- What a response tells the caller: the result or the error, exactly one of which must be
there. -/
def Response.outcome (r : Response) : Except EnvelopeFault (Except Failure Json) :=
  match r.result, r.error with
  | some result, none => .ok (.ok result)
  | none, some error => .ok (.error error)
  | some _, some _ => .error (.resultAndError r.id)
  | none, none => .error (.noOutcome r.id)

end PeerRpc.Rpc
