import PeerRpc.Decimal.Layout
import PeerRpc.Json.Value
import PeerRpc.Text.Basic

/-!
# JSON text of a value

The compact text: no blanks, members in the order of the value's list. A text escapes the quote,
the backslash and the controls below the space, and nothing else.
-/

namespace PeerRpc.Json

/-- Numbers are written in full from 0.00001 up to, but not including, ten to the sixteenth. -/
def numberLayout : Decimal.Layout := ⟨-5, 16⟩

/-- The characters written for one character of a text. -/
def escaped (c : Char) : List Char :=
  if c = '"' then ['\\', '"']
  else if c = '\\' then ['\\', '\\']
  else if c.toNat = 8 then ['\\', 'b']
  else if c.toNat = 12 then ['\\', 'f']
  else if c = '\n' then ['\\', 'n']
  else if c = '\r' then ['\\', 'r']
  else if c = '\t' then ['\\', 't']
  else if c.toNat < 0x20 then
    ['\\', 'u', '0', '0', Text.hexDigit (c.toNat / 16), Text.hexDigit (c.toNat % 16)]
  else [c]

/-- A text between quotes. -/
def textChars (s : String) : List Char :=
  '"' :: s.toList.flatMap escaped ++ ['"']

mutual

/-- The characters of a value's text. -/
def chars : Json → List Char
  | .null => ['n', 'u', 'l', 'l']
  | .bool true => ['t', 'r', 'u', 'e']
  | .bool false => ['f', 'a', 'l', 's', 'e']
  | .int n => Decimal.integer n
  | .double x => numberLayout.double x
  | .string s => textChars s
  | .array [] => ['[', ']']
  | .array (item :: rest) => '[' :: chars item ++ itemsChars rest
  | .object [] => [Char.ofNat 0x7b, Char.ofNat 0x7d]
  | .object ((name, value) :: rest) =>
    Char.ofNat 0x7b :: textChars name ++ ':' :: chars value ++ membersChars rest

/-- The characters of the items after the first, each after a comma, and of the closing bracket. -/
def itemsChars : List Json → List Char
  | [] => [']']
  | item :: rest => ',' :: chars item ++ itemsChars rest

/-- The characters of the members after the first, each after a comma, and of the closing brace. -/
def membersChars : List (String × Json) → List Char
  | [] => [Char.ofNat 0x7d]
  | (name, value) :: rest =>
    ',' :: textChars name ++ ':' :: chars value ++ membersChars rest

end

/-- The text of a value. -/
def text (v : Json) : String :=
  String.ofList (chars v)

/-- The bytes of a value's text. -/
def bytes (v : Json) : List UInt8 :=
  Text.utf8OfChars (chars v)

end PeerRpc.Json
