import PeerRpc.Json.Printer

/-!
# Why a JSON text or value cannot be used

Either the text is not JSON, or a value does not have the expected form, or a value cannot be
written. `Fault.message` gives the wording.
-/

namespace PeerRpc.Json

/-- A cause for which a text or value is refused. -/
inductive Fault where
  /-- The text ends before the value does. -/
  | truncated
  /-- The text breaks the rules of JSON. -/
  | malformed
  /-- A value of another form was expected. -/
  | wrongType (found : Json) (expected : String)
  /-- An integer is outside the expected range. -/
  | outOfRange (found : Int) (expected : String)
  /-- A record lacks a field that it must have. -/
  | missingField (name : String)
  /-- A record's text names a field twice. -/
  | repeatedField (name : String)
  /-- A sequence ends before the record's last required field. -/
  | tooFewItems (found : Nat) (record : String) (size : Nat)
  /-- A sequence goes on after the record's last field. -/
  | tooManyItems (found : Nat)
  /-- An identifier is neither an integer of 64 bits nor a text. -/
  | notAnIdentifier
  /-- A value has none of the forms of a union, tried in this order. -/
  | noAlternative (attempted : List String) (last : Fault)
  /-- Any other reason, given in words. -/
  | refused (reason : String)
deriving Repr, Inhabited

namespace Fault

/-- A value as messages mention it. -/
def describe : Json → String
  | .null => "null"
  | .bool true => "boolean `true`"
  | .bool false => "boolean `false`"
  | .int n => "integer `" ++ String.ofList (Decimal.integer n) ++ "`"
  | .double x => "floating point `" ++ String.ofList (numberLayout.double x) ++ "`"
  | .string s => "string " ++ Text.quoted s
  | .array _ => "sequence"
  | .object _ => "map"

/-- The decimal numeral of a natural number as a text. -/
def count (n : Nat) : String :=
  String.ofList (Decimal.natural n)

/-- The wording of a fault. -/
def message : Fault → String
  | truncated => "JSON text ends early"
  | malformed => "JSON syntax error"
  | wrongType found expected => "invalid type: " ++ describe found ++ ", expected " ++ expected
  | outOfRange found expected =>
    "invalid value: integer `" ++ String.ofList (Decimal.integer found) ++ "`, expected " ++
      expected
  | missingField name => "missing field `" ++ name ++ "`"
  | repeatedField name => "duplicate field `" ++ name ++ "`"
  | tooFewItems found record size =>
    "invalid length " ++ count found ++ ", expected struct " ++ record ++ " with " ++ count size ++
      (if size = 1 then " element" else " elements")
  | tooManyItems found =>
    "invalid length " ++ count found ++ ", expected fewer elements in array"
  | notAnIdentifier => "data did not match any variant of untagged enum RequestId"
  | noAlternative attempted last =>
    "value matches none of [" ++ String.intercalate ", " attempted ++ "]; last error: " ++
      last.message
  | refused reason => reason

end Fault

end PeerRpc.Json
