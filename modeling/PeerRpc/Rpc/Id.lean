import PeerRpc.Shape.Basic

/-!
# Identifiers of requests

A request carries an integer of 64 bits or a text, and its response carries the same. A number and
the text of its digits are different identifiers.
-/

namespace PeerRpc.Rpc

/-- The identifier that a request and its response share. -/
inductive Id where
  | number (n : Int64)
  | text (s : String)
deriving DecidableEq, Repr

namespace Id

/-- An identifier as messages mention it. -/
def describe : Id → String
  | number n => String.ofList (Decimal.integer n.toInt)
  | text s => Text.quoted s

/-- The identifier that a JSON value stands for. -/
def ofJson? : Json → Option Id
  | .int n =>
    if Int64.minValue.toInt ≤ n && n ≤ Int64.maxValue.toInt then some (.number (Int64.ofInt n))
    else none
  | .string s => some (.text s)
  | _ => none

/-- The JSON value of an identifier. -/
def toJson : Id → Json
  | number n => .int n.toInt
  | text s => .string s

end Id

instance : Shape Id where
  name := "lspwire_protocol::jsonrpc::RequestId"
  decode v :=
    match Id.ofJson? v with
    | some id => .ok id
    | none => .error .notAnIdentifier
  encode := Id.toJson

theorem Id.decode_eq (v : Json) :
    (Shape.decode v : Except Json.Fault Id) =
      (Id.ofJson? v).elim (.error .notAnIdentifier) .ok := by
  unfold Shape.decode instShapeId
  dsimp only
  cases Id.ofJson? v <;> rfl

end PeerRpc.Rpc
