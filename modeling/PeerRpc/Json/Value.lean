import PeerRpc.Decimal.Double

/-!
# JSON values

A value as a message carries it: null, a truth value, an integer, a double, a text, an array or an
object. The members of an object form a list of name and value. A value that was read, or that
stands for "any value", is *sorted*: its objects' names ascend strictly, so that two sorted values
are equal when they hold the same members. A value written out from a record keeps the order of the
record's fields until it is sorted.
-/

namespace PeerRpc

/-- A JSON value. -/
inductive Json where
  | null
  | bool (b : Bool)
  /-- A number written without point and exponent that fits 64 bits, signed or unsigned. -/
  | int (n : Int)
  /-- Any other number. -/
  | double (x : Decimal.Double)
  | string (s : String)
  | array (items : List Json)
  | object (members : List (String × Json))
deriving Repr, BEq, Inhabited

namespace Json

/-- The members with one more; a member of the same name is replaced, and the ascending order of
names is kept. -/
def insertMember (name : String) (value : Json) : List (String × Json) → List (String × Json)
  | [] => [(name, value)]
  | (name', value') :: rest =>
    if name < name' then (name, value) :: (name', value') :: rest
    else if name = name' then (name, value) :: rest
    else (name', value') :: insertMember name value rest

/-- The value of the first member of a name. -/
def member? (name : String) : List (String × Json) → Option Json
  | [] => none
  | (name', value) :: rest => if name = name' then some value else member? name rest

mutual

/-- The same value with every object's names in ascending order; of several members of one name
the last is kept. -/
def sorted : Json → Json
  | .array items => .array (sortedItems items)
  | .object members => .object (sortedMembers members [])
  | other => other

/-- The items, each with its objects sorted. -/
def sortedItems : List Json → List Json
  | [] => []
  | item :: rest => sorted item :: sortedItems rest

/-- The members inserted one after the other, each with its objects sorted. -/
def sortedMembers : List (String × Json) → List (String × Json) → List (String × Json)
  | [], done => done
  | (name, value) :: rest, done => sortedMembers rest (insertMember name (sorted value) done)

end

mutual

/-- The number of arrays and objects that are open at the deepest place of a value. -/
def depth : Json → Nat
  | .array items => depthItems items + 1
  | .object members => depthMembers members + 1
  | _ => 0

/-- The greatest depth among some items. -/
def depthItems : List Json → Nat
  | [] => 0
  | item :: rest => max (depth item) (depthItems rest)

/-- The greatest depth among the values of some members. -/
def depthMembers : List (String × Json) → Nat
  | [] => 0
  | (_, value) :: rest => max (depth value) (depthMembers rest)

end

end Json

end PeerRpc
