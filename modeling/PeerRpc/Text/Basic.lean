import PeerRpc.Text.Extending
import PeerRpc.Text.Unprintable

/-!
# Texts

Payloads are lists of bytes; the texts in them are UTF-8. `utf8` gives the bytes of a text and
`ofUtf8?` reads them back, refusing bytes that no text has. `trim` cuts the blanks off both ends of
a text, and `quoted` puts a text between double quotes where it appears inside a message.
-/

namespace PeerRpc.Text

/-! ## Bytes -/

/-- The UTF-8 form of a text. -/
def utf8 (s : String) : List UInt8 :=
  s.toUTF8.data.toList

/-- The text with the given UTF-8 form, if there is one. -/
def ofUtf8? (bytes : List UInt8) : Option String :=
  String.fromUTF8? ⟨bytes.toArray⟩

/-- The UTF-8 form of a list of characters. -/
def utf8OfChars (cs : List Char) : List UInt8 :=
  cs.flatMap String.utf8EncodeChar

/-! ## Blanks -/

/-- Whether a character is white space: one of the twenty-five characters with the property
`White_Space` of Unicode. -/
def isBlank (c : Char) : Bool :=
  let n := c.toNat
  (9 ≤ n && n ≤ 13) || n == 0x20 || n == 0x85 || n == 0xa0 || n == 0x1680 ||
    (0x2000 ≤ n && n ≤ 0x200a) || n == 0x2028 || n == 0x2029 || n == 0x202f || n == 0x205f ||
    n == 0x3000

/-- The characters left when the blanks at both ends are cut off. -/
def trimChars (cs : List Char) : List Char :=
  ((cs.dropWhile isBlank).reverse.dropWhile isBlank).reverse

/-- The text left when the blanks at both ends are cut off. -/
def trim (s : String) : String :=
  String.ofList (trimChars s.toList)

/-! ## Quoted texts

The quote, the backslash, tab, line feed, carriage return and NUL are written with a backslash;
every other character that has no printed form, or that would attach itself to the character before
it, is written as its code point in hexadecimal.
-/

/-- The lower-case hexadecimal digit of a number below sixteen. -/
def hexDigit (n : Nat) : Char :=
  if n < 10 then Char.ofNat (48 + n) else Char.ofNat (87 + n)

/-- The shortest hexadecimal numeral of a number. -/
def hexNumeral (n : Nat) : List Char :=
  if n < 16 then [hexDigit n] else hexNumeral (n / 16) ++ [hexDigit (n % 16)]

/-- The characters written for one character between quotes. -/
def quotedChar (c : Char) : List Char :=
  if c = '"' then ['\\', '"']
  else if c = '\\' then ['\\', '\\']
  else if c = '\t' then ['\\', 't']
  else if c = '\r' then ['\\', 'r']
  else if c = '\n' then ['\\', 'n']
  else if c.toNat = 0 then ['\\', '0']
  else if (c.toNat < 0x20 || 0x7f ≤ c.toNat) && (isExtending c || isUnprintable c) then
    ['\\', 'u', Char.ofNat 0x7b] ++ hexNumeral c.toNat ++ [Char.ofNat 0x7d]
  else [c]

/-- A text between double quotes, with everything invisible spelled out. -/
def quoted (s : String) : String :=
  String.ofList ('"' :: s.toList.flatMap quotedChar ++ ['"'])

end PeerRpc.Text
