import PeerRpc.Json.Fault

/-!
# Shapes

A type has a shape when its values can be written as JSON values and read back. Reading is
structural: a value is refused with the first fault found, integers must be in range, a double is
never taken for an integer, and null is the absent option. The name of a shape is what a union
mentions when no alternative fits.
-/

namespace PeerRpc

/-- A type whose values are written as JSON values. -/
class Shape (α : Type) where
  /-- How messages name the type. -/
  name : String
  /-- The value that a JSON value stands for. -/
  decode : Json → Except Json.Fault α
  /-- The JSON value that is written for a value. -/
  encode : α → Json

namespace Shape

/-- Reads an integer between two bounds. -/
def decodeInteger (least greatest : Int) (expected : String) : Json → Except Json.Fault Int
  | .int n => if least ≤ n && n ≤ greatest then .ok n else .error (.outOfRange n expected)
  | other => .error (.wrongType other expected)

instance : Shape Json where
  name := "any"
  decode := .ok
  encode v := v

instance : Shape Unit where
  name := "()"
  decode
    | .null => .ok ()
    | other => .error (.wrongType other "unit")
  encode _ := .null

instance : Shape Bool where
  name := "bool"
  decode
    | .bool b => .ok b
    | other => .error (.wrongType other "a boolean")
  encode := .bool

instance : Shape Int64 where
  name := "i64"
  decode v := (decodeInteger Int64.minValue.toInt Int64.maxValue.toInt "i64" v).map Int64.ofInt
  encode n := .int n.toInt

instance : Shape Int32 where
  name := "i32"
  decode v := (decodeInteger Int32.minValue.toInt Int32.maxValue.toInt "i32" v).map Int32.ofInt
  encode n := .int n.toInt

instance : Shape UInt32 where
  name := "u32"
  decode v := (decodeInteger 0 (UInt32.size - 1) "u32" v).map fun n => UInt32.ofNat n.toNat
  encode n := .int n.toNat

instance : Shape String where
  name := "alloc::string::String"
  decode
    | .string s => .ok s
    | other => .error (.wrongType other "a string")
  encode := .string

/-- Reads every item of a sequence, from the first to the last. -/
def decodeItems {α : Type} (decode : Json → Except Json.Fault α) :
    List Json → Except Json.Fault (List α)
  | [] => .ok []
  | item :: rest => do
    let a ← decode item
    let as ← decodeItems decode rest
    .ok (a :: as)

instance {α : Type} [Shape α] : Shape (List α) where
  name := "alloc::vec::Vec<" ++ name α ++ ">"
  decode
    | .array items => decodeItems decode items
    | other => .error (.wrongType other "a sequence")
  encode as := .array (as.map encode)

instance {α : Type} [Shape α] : Shape (Option α) where
  name := "core::option::Option<" ++ name α ++ ">"
  decode
    | .null => .ok none
    | other => (decode other).map some
  encode
    | none => .null
    | some a => encode a

end Shape

end PeerRpc
