import PeerRpc.Rpc.Id
import PeerRpc.Shape.Record

/-!
# Methods

A method ties a name to the types of its parameters and, for a request, of its result. Parameters
whose JSON value is null are left out of a call, and absent parameters are read as null; so a
method without parameters accepts a call that has none.
-/

namespace PeerRpc.Rpc

/-- How values of a type are written as parameters, which may fail, and read back. -/
structure Coder (α : Type) where
  /-- The value that a JSON value stands for. -/
  read : Json → Except Json.Fault α
  /-- The JSON value that is written for a value. -/
  write : α → Except Json.Fault Json

/-- The coder of a type that has a shape; writing never fails. -/
def Coder.ofShape (α : Type) [Shape α] : Coder α :=
  ⟨Shape.decode, fun a => .ok (Shape.encode a)⟩

/-- The parameters of a call as they are sent: names in ascending order, null left out. -/
def Coder.encode {α : Type} (coder : Coder α) (a : α) : Except Json.Fault (Option Json) := do
  match (← coder.write a).sorted with
  | .null => .ok none
  | v => .ok (some v)

/-- The parameters that a call carries. -/
def Coder.decode {α : Type} (coder : Coder α) (params : Option Json) : Except Json.Fault α :=
  coder.read (params.getD .null)

/-- A method that asks for a response. -/
structure RequestMethod where
  name : String
  Params : Type
  Result : Type
  /-- How parameters travel. -/
  params : Coder Params
  /-- How a result travels. -/
  result : Shape Result

/-- A method without a response. -/
structure NotificationMethod where
  name : String
  Params : Type
  params : Coder Params

/-- The request method of a name whose parameters and result have shapes. -/
def RequestMethod.ofShapes (name : String) (Params Result : Type) [Shape Params] [Shape Result] :
    RequestMethod :=
  ⟨name, Params, Result, .ofShape Params, inferInstance⟩

/-- The notification method of a name whose parameters have a shape. -/
def NotificationMethod.ofShape (name : String) (Params : Type) [Shape Params] :
    NotificationMethod :=
  ⟨name, Params, .ofShape Params⟩

/-- The result that a response to a request carries. -/
def RequestMethod.readResult (m : RequestMethod) (v : Json) : Except Json.Fault m.Result :=
  m.result.decode v

/-- The JSON value of a result. -/
def RequestMethod.writeResult (m : RequestMethod) (r : m.Result) : Json :=
  m.result.encode r

end PeerRpc.Rpc
