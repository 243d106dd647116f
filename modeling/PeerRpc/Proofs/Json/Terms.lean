import PeerRpc.Proofs.Json.Texts

/-!
# The grammar of JSON texts

A `Term` is a JSON text without the blanks between its parts: every scalar as it is written, the
items of every array and the members of every object in their order, repeated names and all. A term
may nest as deep as it likes and its numbers may have any size; the names and texts in it may hold
escapes that stand for no character. `Spells` gives the ways to write a term: any blanks may stand
around the brackets, braces, colons and commas.

The grammar does not mention the reading functions. What they make of a term must not depend on the
blanks, and is proved for each of them from here.
-/

namespace PeerRpc.Json

/-! ## Numbers -/

/-- Digits that are written one after the other, of which there is at least one. -/
structure Figures where
  digits : List Nat
  ne_nil : digits ≠ []
  lt : ∀ d ∈ digits, d < 10

/-- The bytes of some digits. -/
def Figures.bytes (n : Figures) : List UInt8 :=
  n.digits.map fun d => UInt8.ofNat (48 + d)

/-- An exponent as it is written. -/
structure Power where
  capital : Bool
  /-- The sign, if there is one: `true` for minus. -/
  sign : Option Bool
  figures : Figures

namespace Power

/-- The bytes of a sign that may be missing. -/
def signBytes : Option Bool → List UInt8
  | none => []
  | some true => [0x2d]
  | some false => [0x2b]

/-- The bytes of an exponent. -/
def bytes (e : Power) : List UInt8 :=
  (if e.capital then 0x45 else 0x65) :: (signBytes e.sign ++ e.figures.bytes)

end Power

/-- A number as it is written, without its sign. -/
structure Numeral where
  whole : Figures
  /-- There is no leading zero. -/
  leading : whole.digits.head? = some 0 → whole.digits = [0]
  fraction : Option Figures
  power : Option Power

namespace Numeral

/-- The bytes of an exponent that may be missing. -/
def powerBytes (power : Option Power) : List UInt8 :=
  power.elim [] Power.bytes

/-- The bytes of a fraction that may be missing. -/
def fractionBytes (fraction : Option Figures) : List UInt8 :=
  fraction.elim [] fun n => 0x2e :: n.bytes

/-- The bytes of a number. -/
def bytes (n : Numeral) : List UInt8 :=
  n.whole.bytes ++ (fractionBytes n.fraction ++ powerBytes n.power)

end Numeral

/-! ## Texts -/

/-- An escape that is a backslash and one letter or sign. -/
inductive Short where
  | quote
  | backslash
  | slash
  | backspace
  | formFeed
  | lineFeed
  | carriageReturn
  | tab
deriving DecidableEq, Repr

namespace Short

/-- The byte after the backslash. -/
def byte : Short → UInt8
  | quote => 0x22
  | backslash => 0x5c
  | slash => 0x2f
  | backspace => 0x62
  | formFeed => 0x66
  | lineFeed => 0x6e
  | carriageReturn => 0x72
  | tab => 0x74

/-- The character that the escape stands for. -/
def char : Short → Char
  | quote => '"'
  | backslash => '\\'
  | slash => '/'
  | backspace => Char.ofNat 8
  | formFeed => Char.ofNat 12
  | lineFeed => '\n'
  | carriageReturn => '\r'
  | tab => '\t'

end Short

/-- A hexadecimal digit as it is written. -/
structure HexDigit where
  byte : UInt8
  isSome : (hexOf? byte).isSome

/-- The number of a hexadecimal digit. -/
def HexDigit.value (d : HexDigit) : Nat :=
  (hexOf? d.byte).get d.isSome

/-- A part of a text as it is written. -/
inductive Piece where
  /-- A byte that stands for itself. -/
  | plain (b : UInt8) (h : isOrdinary b = true)
  | short (e : Short)
  /-- A unit of 16 bits in four hexadecimal digits: a character, or one half of a character. -/
  | unit (a b c d : HexDigit)

namespace Piece

/-- The bytes of a part of a text. -/
def bytes : Piece → List UInt8
  | plain b _ => [b]
  | short e => [0x5c, e.byte]
  | unit a b c d => [0x5c, 0x75, a.byte, b.byte, c.byte, d.byte]

/-- The number of a unit. -/
def code (a b c d : HexDigit) : Nat :=
  ((a.value * 16 + b.value) * 16 + c.value) * 16 + d.value

/-- Whether a unit is the first half of a character. -/
def isHigh (n : Nat) : Bool := 0xd800 ≤ n && n ≤ 0xdbff

/-- Whether a unit is the second half of a character. -/
def isLow (n : Nat) : Bool := 0xdc00 ≤ n && n ≤ 0xdfff

/-- The character of two halves. -/
def paired (high low : Nat) : Char :=
  Char.ofNat (0x10000 + (high - 0xd800) * 0x400 + (low - 0xdc00))

end Piece

/-- The bytes of a text between its quotes. -/
def written (n : List Piece) : List UInt8 :=
  n.flatMap Piece.bytes

/-- The UTF-8 form of what is written, if every half of a character has the other half beside it. -/
def unescaped? : List Piece → Option (List UInt8)
  | [] => some []
  | .plain b _ :: n => (unescaped? n).map (b :: ·)
  | .short e :: n => (unescaped? n).map (String.utf8EncodeChar e.char ++ ·)
  | .unit a b c d :: n =>
    if Piece.isLow (Piece.code a b c d) then none
    else if Piece.isHigh (Piece.code a b c d) then
      match n with
      | .unit a' b' c' d' :: n =>
        if Piece.isLow (Piece.code a' b' c' d') then
          (unescaped? n).map (String.utf8EncodeChar
            (Piece.paired (Piece.code a b c d) (Piece.code a' b' c' d')) ++ ·)
        else none
      | _ => none
    else (unescaped? n).map (String.utf8EncodeChar (Char.ofNat (Piece.code a b c d)) ++ ·)

/-- A text of bytes that stand for themselves. -/
def plainly (s : String) (h : ∀ b ∈ Text.utf8 s, isOrdinary b = true) : List Piece :=
  (Text.utf8 s).pmap .plain h

/-- The text that is written, if it is one. -/
def text? (n : List Piece) : Option String :=
  (unescaped? n).bind Text.ofUtf8?

/-! ## Values -/

/-- A scalar as it is written. -/
inductive Scalar where
  | null
  | bool (b : Bool)
  | number (negative : Bool) (n : Numeral)
  | text (n : List Piece)

/-- The bytes of a scalar. -/
def Scalar.bytes : Scalar → List UInt8
  | null => [0x6e, 0x75, 0x6c, 0x6c]
  | bool true => [0x74, 0x72, 0x75, 0x65]
  | bool false => [0x66, 0x61, 0x6c, 0x73, 0x65]
  | number true n => 0x2d :: n.bytes
  | number false n => n.bytes
  | text n => 0x22 :: (written n ++ [0x22])

/-- A JSON text without the blanks between its parts. -/
inductive Term where
  | scalar (s : Scalar)
  | array (items : List Term)
  | object (members : List (List Piece × Term))

/-- Spaces, tabs, line feeds and carriage returns. -/
def Blank (w : List UInt8) : Prop :=
  ∀ b ∈ w, isSpace b = true

instance (w : List UInt8) : Decidable (Blank w) :=
  inferInstanceAs (Decidable (∀ b ∈ w, isSpace b = true))

/-- What stands before an item or a member: nothing before the first, a comma before the others. -/
inductive Separates : Bool → List UInt8 → Prop
  | first : Separates true []
  | comma {w : List UInt8} (hw : Blank w) : Separates false (w ++ [0x2c])

mutual

/-- The bytes are a way to write the term. -/
inductive Spells : Term → List UInt8 → Prop
  | scalar (s : Scalar) : Spells (.scalar s) s.bytes
  | array {items : List Term} {r : List UInt8} (h : SpellsItems true items r) :
    Spells (.array items) (0x5b :: r)
  | object {members : List (List Piece × Term)} {r : List UInt8}
    (h : SpellsMembers true members r) : Spells (.object members) (0x7b :: r)

/-- The bytes are a way to write the items of an array, the first of them or those after it, and
the closing bracket. -/
inductive SpellsItems : Bool → List Term → List UInt8 → Prop
  | nil {first : Bool} {w : List UInt8} (hw : Blank w) : SpellsItems first [] (w ++ [0x5d])
  | cons {first : Bool} {s w b r : List UInt8} {t : Term} {items : List Term}
    (hs : Separates first s) (hw : Blank w) (hb : Spells t b) (hr : SpellsItems false items r) :
    SpellsItems first (t :: items) (s ++ (w ++ (b ++ r)))

/-- The bytes are a way to write the members of an object, the first of them or those after it, and
the closing brace. -/
inductive SpellsMembers : Bool → List (List Piece × Term) → List UInt8 → Prop
  | nil {first : Bool} {w : List UInt8} (hw : Blank w) : SpellsMembers first [] (w ++ [0x7d])
  | cons {first : Bool} {s w w' w'' b r : List UInt8} {n : List Piece} {t : Term}
    {members : List (List Piece × Term)} (hs : Separates first s) (hw : Blank w) (hw' : Blank w')
    (hw'' : Blank w'') (hb : Spells t b) (hr : SpellsMembers false members r) :
    SpellsMembers first ((n, t) :: members)
      (s ++ (w ++ 0x22 :: (written n ++ 0x22 :: (w' ++ 0x3a :: (w'' ++ (b ++ r))))))

end

/-- What can stand after a value: the end, a blank, a comma or a closing bracket or brace. -/
def Parted (rest : List UInt8) : Prop :=
  ∀ b, rest.head? = some b → isSpace b = true ∨ b = 0x2c ∨ b = 0x5d ∨ b = 0x7d

/-- The bytes are a JSON text of the term, with any blanks around it. -/
def WrittenAs (t : Term) (text : List UInt8) : Prop :=
  ∃ w b w', Blank w ∧ Spells t b ∧ Blank w' ∧ text = w ++ (b ++ w')

end PeerRpc.Json
