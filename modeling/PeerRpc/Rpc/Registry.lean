import PeerRpc.Log
import PeerRpc.Rpc.Failure
import PeerRpc.Rpc.Method

/-!
# The registry of methods

A registry tells how to make the application's own value from the parameters of a call. Requests
and notifications are kept apart. Registering a method again replaces what was registered under its
name before, and the registry keeps a record of that.
-/

namespace PeerRpc.Rpc

/-- Why a call cannot be made into a value. -/
inductive CallFault where
  /-- No method of this name is registered. -/
  | unknownMethod (name : String)
  /-- The parameters do not fit the method. -/
  | badParams (method : String) (fault : Json.Fault)
deriving Repr

namespace CallFault

/-- The wording of a call's fault. -/
def message : CallFault → String
  | unknownMethod name => "unrecognized method: " ++ name
  | badParams method fault => "invalid params for " ++ method ++ ": " ++ fault.message

/-- The wordings of what lies behind a fault, the nearest first. -/
def causes : CallFault → List String
  | unknownMethod _ => []
  | badParams _ fault => [fault.message]

/-- The error that a request with this fault is answered with. -/
def toFailure : CallFault → Failure
  | unknownMethod name => .methodNotFound name
  | badParams method fault =>
    .invalidParams ("Invalid params for " ++ method ++ ": " ++ fault.message)

end CallFault

/-- What is registered under a name. -/
structure Entry (α : Type) where
  name : String
  /-- Makes a value from the parameters of a call. -/
  make : Option Json → Except Json.Fault α

namespace Entry

variable {α : Type}

/-- The entries with one more, which takes the place of one of the same name. -/
def put (e : Entry α) : List (Entry α) → List (Entry α)
  | [] => [e]
  | e' :: rest => if e'.name = e.name then e :: rest else e' :: put e rest

/-- The entry of a name. -/
def find? (name : String) (es : List (Entry α)) : Option (Entry α) :=
  es.find? fun e => e.name = name

/-- Makes a value from a call, through the entry of its method. -/
def decode (es : List (Entry α)) (method : String) (params : Option Json) :
    Except CallFault α :=
  match find? method es with
  | none => .error (.unknownMethod method)
  | some e => (e.make params).mapError (.badParams method)

end Entry

/-- The methods that an application handles: requests become values of `R`, notifications values
of `N`. -/
structure Registry (R N : Type) where
  requests : List (Entry R) := []
  notifications : List (Entry N) := []
  /-- The records of methods that were replaced, the oldest first. -/
  records : List Log.Record := []

namespace Registry

variable {R N : Type}

/-- A registry without methods. -/
def empty : Registry R N := {}

/-- Whether a request method of a name is registered. -/
def hasRequest (r : Registry R N) (method : String) : Bool :=
  (Entry.find? method r.requests).isSome

/-- Whether a notification method of a name is registered. -/
def hasNotification (r : Registry R N) (method : String) : Bool :=
  (Entry.find? method r.notifications).isSome

/-- The record of a method that took the place of another one. -/
def replacement (kind name : String) : Log.Record :=
  ⟨.warn, Log.dispatchTarget, kind ++ " method replaced: " ++ name⟩

/-- The registry with a request method, whose parameters are made into values by `make`. -/
def registerRequest (r : Registry R N) (m : RequestMethod) (make : m.Params → R) : Registry R N :=
  { r with
    requests := Entry.put ⟨m.name, fun p => (m.params.decode p).map make⟩ r.requests
    records :=
      if r.hasRequest m.name then r.records ++ [replacement "Request" m.name] else r.records }

/-- The registry with a notification method, whose parameters are made into values by `make`. -/
def registerNotification (r : Registry R N) (m : NotificationMethod) (make : m.Params → N) :
    Registry R N :=
  { r with
    notifications := Entry.put ⟨m.name, fun p => (m.params.decode p).map make⟩ r.notifications
    records :=
      if r.hasNotification m.name then r.records ++ [replacement "Notification" m.name]
      else r.records }

/-- The value of a request. -/
def decodeRequest (r : Registry R N) (method : String) (params : Option Json) :
    Except CallFault R :=
  Entry.decode r.requests method params

/-- The value of a notification. -/
def decodeNotification (r : Registry R N) (method : String) (params : Option Json) :
    Except CallFault N :=
  Entry.decode r.notifications method params

/-- Names in ascending order, quoted, between brackets. -/
def describeNames (names : List String) : String :=
  "[" ++ String.intercalate ", " ((names.mergeSort fun a b => !(b < a)).map Text.quoted) ++ "]"

/-- The registered names as messages mention them. -/
def describe (r : Registry R N) : String :=
  "Dispatcher \x7b requests: " ++ describeNames (r.requests.map (·.name)) ++ ", notifications: " ++
    describeNames (r.notifications.map (·.name)) ++ " \x7d"

end Registry

end PeerRpc.Rpc
