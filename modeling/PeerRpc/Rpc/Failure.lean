import PeerRpc.Shape.Record

/-!
# Errors that answer a request

A request that fails is answered with a code, a message and, if the handler adds some, data of any
form. The codes that the protocol names have a constructor; every other number is `custom`.
-/

namespace PeerRpc.Rpc

/-- The code of an error. -/
inductive Code where
  | parseError
  | invalidRequest
  | methodNotFound
  | invalidParams
  | internalError
  | serverNotInitialized
  | unknownErrorCode
  | requestFailed
  | serverCancelled
  | contentModified
  | requestCancelled
  | custom (n : Int32)
deriving DecidableEq, Repr

namespace Code

/-- The number of a code. -/
def toInt32 : Code → Int32
  | parseError => -32700
  | invalidRequest => -32600
  | methodNotFound => -32601
  | invalidParams => -32602
  | internalError => -32603
  | serverNotInitialized => -32002
  | unknownErrorCode => -32001
  | requestFailed => -32803
  | serverCancelled => -32802
  | contentModified => -32801
  | requestCancelled => -32800
  | custom n => n

/-- The codes that have a name. -/
def named : List Code :=
  [parseError, invalidRequest, methodNotFound, invalidParams, internalError, serverNotInitialized,
    unknownErrorCode, requestFailed, serverCancelled, contentModified, requestCancelled]

/-- The code of a number: the named one if there is one. -/
def ofInt32 (n : Int32) : Code :=
  (named.find? fun c => c.toInt32 = n).getD (custom n)

/-- The decimal numeral of a code. -/
def numeral (c : Code) : String :=
  String.ofList (Decimal.integer c.toInt32.toInt)

end Code

instance : Shape Code where
  name := "lspwire_core::error::ErrorCode"
  decode v := (Shape.decode v).map Code.ofInt32
  encode c := Shape.encode c.toInt32

/-- The error that answers a request. -/
structure Failure where
  /-- What kind of error it is. -/
  code : Code
  /-- What went wrong, in words. -/
  message : String
  /-- What else the handler tells about it. -/
  data : Option Json := none
deriving Repr, BEq

namespace Failure

/-- No method of this name is registered. -/
def methodNotFound (method : String) : Failure :=
  ⟨.methodNotFound, "Method not found: " ++ method, none⟩

/-- The parameters cannot be read. -/
def invalidParams (message : String) : Failure :=
  ⟨.invalidParams, message, none⟩

/-- The message is not a request. -/
def invalidRequest (message : String) : Failure :=
  ⟨.invalidRequest, message, none⟩

/-- Something went wrong inside. -/
def internalError (message : String) : Failure :=
  ⟨.internalError, message, none⟩

/-- The request was given up. -/
def requestCancelled : Failure :=
  ⟨.requestCancelled, "Request cancelled", none⟩

/-- A JSON text or value could not be used. -/
def ofFault (fault : Json.Fault) : Failure :=
  internalError fault.message

/-- The error with some data. -/
def withData (f : Failure) (data : Json) : Failure :=
  { f with data := some data }

/-- An error as messages mention it: its code in brackets, then its words. -/
def describe (f : Failure) : String :=
  "[" ++ f.code.numeral ++ "] " ++ f.message

/-- The name of the record in messages. -/
def record : String := "RpcError"

/-- The JSON value of an error; absent data is left out. -/
def toJson (f : Failure) : Json :=
  .object
    ([("code", Shape.encode f.code), ("message", Shape.encode f.message)] ++
      Shape.optionalMember "data" f.data)

end Failure

instance : Shape Failure where
  name := "lspwire_core::error::RpcError"
  decode := Shape.decodeRecord Failure.record
    (fun members => do
      let code ← Shape.field? "code" members
      let data ← Shape.optionalField? "data" members
      let message ← Shape.field? "message" members
      let code ← Shape.required "code" code
      let message ← Shape.required "message" message
      .ok ⟨code, message, data⟩)
    (fun items => do
      let (code, items) ← Shape.item Failure.record 3 0 items
      let (message, items) ← Shape.item Failure.record 3 1 items
      let (data, items) ← Shape.optionalItem? items
      .ok (⟨code, message, data⟩, items))
  encode := Failure.toJson

end PeerRpc.Rpc
