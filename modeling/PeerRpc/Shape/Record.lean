import PeerRpc.Shape.Basic

/-!
# Records

A record is written as an object with its fields in the order of their declaration. It is read from
an object, whose other members are ignored, or from an array that holds the fields in the order of
declaration. From an object the fields are looked at in the order of their names, and a missing one
is reported only after all that are there have been read; from an array they are looked at one
after the other.
-/

namespace PeerRpc.Shape

variable {α : Type}

/-- Reads the member of a name, if there is one. -/
def field? [Shape α] (name : String) (members : List (String × Json)) :
    Except Json.Fault (Option α) :=
  match Json.member? name members with
  | none => .ok none
  | some v => (decode v).map some

/-- Reads the member of a name that may be missing or null. -/
def optionalField? [Shape α] (name : String) (members : List (String × Json)) :
    Except Json.Fault (Option α) :=
  (field? (α := Option α) name members).map Option.join

/-- A field that must be there. -/
def required (name : String) : Option α → Except Json.Fault α
  | some a => .ok a
  | none => .error (.missingField name)

/-- Reads the next item of a sequence, if there is one. -/
def item? [Shape α] : List Json → Except Json.Fault (Option α × List Json)
  | [] => .ok (none, [])
  | v :: rest => (decode v).map fun a => (some a, rest)

/-- Reads the next item of a sequence that may be missing or null. -/
def optionalItem? [Shape α] (items : List Json) : Except Json.Fault (Option α × List Json) :=
  (item? (α := Option α) items).map fun (a, rest) => (a.join, rest)

/-- Reads the item at an index of the sequence that holds a record of so many fields. -/
def item [Shape α] (record : String) (size index : Nat) (items : List Json) :
    Except Json.Fault (α × List Json) :=
  match items with
  | [] => .error (.tooFewItems index record size)
  | v :: rest => (decode v).map fun a => (a, rest)

/-- Reads a record, given how to read it from the members of an object and from the items of a
sequence; the latter gives the items that are left, of which there may be none. -/
def decodeRecord (record : String) (ofMembers : List (String × Json) → Except Json.Fault α)
    (ofItems : List Json → Except Json.Fault (α × List Json)) : Json → Except Json.Fault α
  | .object members => ofMembers members
  | .array items => do
    match ← ofItems items with
    | (a, []) => .ok a
    | (_, _ :: _) => .error (.tooManyItems items.length)
  | other => .error (.wrongType other ("struct " ++ record))

/-- The member that is written for an optional field: none when it is absent. -/
def optionalMember [Shape α] (name : String) : Option α → List (String × Json)
  | none => []
  | some a => [(name, encode a)]

end PeerRpc.Shape
