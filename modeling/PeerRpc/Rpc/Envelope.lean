import PeerRpc.Rpc.Failure
import PeerRpc.Rpc.Id

/-!
# Envelopes

An envelope holds the protocol version and five fields that may be absent. A null counts as an absent
identifier, method or error, but null parameters and a null result are there. The version is written
with every envelope; whatever a payload says about it is ignored, and the envelope that is read has
the default.
-/

namespace PeerRpc.Rpc

/-- The protocol version that envelopes have by default. -/
def protocolVersion : String := "2.0"

/-- The fields of a message. -/
structure Envelope where
  /-- The protocol version, which is never read. -/
  jsonrpc : String := protocolVersion
  /-- The identifier; notifications have none. -/
  id : Option Id := none
  /-- The method; responses have none. -/
  method : Option String := none
  params : Option Json := none
  /-- The result of a request that succeeded. -/
  result : Option Json := none
  /-- The error of a request that failed. -/
  error : Option Failure := none
deriving Repr, BEq

namespace Envelope

/-- A request. -/
def request (id : Id) (method : String) (params : Option Json) : Envelope :=
  { id := some id, method := some method, params }

/-- A notification. -/
def notification (method : String) (params : Option Json) : Envelope :=
  { method := some method, params }

/-- The response to a request that succeeded. -/
def success (id : Id) (result : Json) : Envelope :=
  { id := some id, result := some result }

/-- The response to a request that failed. -/
def failure (id : Id) (error : Failure) : Envelope :=
  { id := some id, error := some error }

/-- The response with the outcome of a request. -/
def response (id : Id) : Except Failure Json → Envelope
  | .ok result => success id result
  | .error error => failure id error

/-- The JSON value of an envelope; absent fields are left out. -/
def toJson (e : Envelope) : Json :=
  .object
    (("jsonrpc", .string e.jsonrpc) :: Shape.optionalMember "id" e.id ++
      Shape.optionalMember "method" e.method ++ Shape.optionalMember "params" e.params ++
      Shape.optionalMember "result" e.result ++ Shape.optionalMember "error" e.error)

/-- The bytes of an envelope. -/
def bytes (e : Envelope) : List UInt8 :=
  e.toJson.bytes

/-- The name of the record in messages. -/
def record : String := "Envelope"

end Envelope

instance : Shape Envelope where
  name := "lspwire_protocol::jsonrpc::Envelope"
  decode := Shape.decodeRecord Envelope.record
    (fun members => do
      let error ← Shape.optionalField? "error" members
      let id ← Shape.optionalField? "id" members
      let method ← Shape.optionalField? "method" members
      let params ← Shape.field? "params" members
      let result ← Shape.field? "result" members
      .ok { id, method, params, result, error })
    (fun items => do
      let (id, items) ← Shape.optionalItem? items
      let (method, items) ← Shape.optionalItem? items
      let (params, items) ← Shape.item? items
      let (result, items) ← Shape.item? items
      let (error, items) ← Shape.optionalItem? items
      .ok ({ id, method, params, result, error }, items))
  encode := Envelope.toJson

end PeerRpc.Rpc
