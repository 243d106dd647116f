import PeerRpc.Json.Fault

/-!
# Reading JSON text

A reading function takes the bytes that are left and gives what it has read together with the bytes
after it. The first fault in reading order is reported: `truncated` where the text ends before the
value does, `malformed` for everything else. At most 127 arrays and objects may be open at once.

* `readValue` reads any value, its objects sorted and with the last of equal names.
* `skipValue` passes over a value that nobody looks at. It checks brackets, separators and the
  spelling of names and scalars, but neither the depth nor the characters of texts nor the size of
  numbers.
* `readMembers` and `readNextItem` are the parts of an object and of an array that do not depend on
  what the values are; a record is read with them as well.

A loop over the parts of a text, an array or an object reads at least one byte in every step, so as
many steps as there are bytes suffice. The bytes that are left at its start therefore serve as the
supply of steps: the first list of a loop is only counted.
-/

namespace PeerRpc.Json

/-- Arrays and objects that may be open at the same time. -/
def maxDepth : Nat := 127

/-- Whether a byte is a space, a tab, a line feed or a carriage return. -/
def isSpace (b : UInt8) : Bool :=
  b = 0x20 || b = 0x09 || b = 0x0a || b = 0x0d

/-- The bytes after the white space at their front. -/
def skipSpace (input : List UInt8) : List UInt8 :=
  input.dropWhile isSpace

/-- Reads the given bytes. -/
def readWord : List UInt8 → List UInt8 → Except Fault (Unit × List UInt8)
  | [], input => .ok ((), input)
  | _ :: _, [] => .error .truncated
  | b :: word, b' :: input => if b = b' then readWord word input else .error .malformed

/-! ## Numbers -/

/-- The largest number of 64 bits. -/
def maxWord : Nat := UInt64.size - 1

/-- The largest exponent that is looked at; a larger one makes the number zero or too large. -/
def maxExponent : Nat := Int32.maxValue.toInt.toNat

/-- The significand after some more digits, and the digits that no longer fit 64 bits. -/
def gather : Nat → List Nat → Nat × List Nat
  | n, [] => (n, [])
  | n, d :: ds => if 10 * n + d ≤ maxWord then gather (10 * n + d) ds else (n, d :: ds)

/-- A double divided by `10 ^ k`; steps of `10 ^ 308` are taken while `k` is larger than that. -/
def dividedByPower (x : Decimal.Double) (k : Nat) : Option Decimal.Double :=
  if k ≤ 308 then do x.scaleDown (← Decimal.Double.powerOfTen k)
  else if x.mantissa = 0 then some x
  else do dividedByPower (← x.scaleDown (← Decimal.Double.powerOfTen 308)) (k - 308)
termination_by k

/-- The double of a significand of 64 bits and a power of ten: the significand is rounded first,
then scaled. Nothing beyond the largest double is accepted. -/
def scaled (negative : Bool) (significand : Nat) (exponent : Int) : Except Fault Decimal.Double :=
  let result :=
    if significand = 0 then some (Decimal.Double.zero negative)
    else do
      let x ← Decimal.Double.nearest negative significand 1
      if exponent < 0 then dividedByPower x (-exponent).toNat
      else if exponent ≤ 308 then x.scaleUp (← Decimal.Double.powerOfTen exponent.toNat)
      else none
  match result with
  | some x => .ok x
  | none => .error .malformed

/-- Whether a byte starts an exponent. -/
def isExponentMark (b : UInt8) : Bool :=
  b = 0x65 || b = 0x45

/-- The sign of an exponent, plus if there is none, and the bytes after it. -/
def exponentSign : List UInt8 → Bool × List UInt8
  | [] => (false, [])
  | b :: rest =>
    if b = 0x2d then (true, rest) else if b = 0x2b then (false, rest) else (false, b :: rest)

/-- Reads the exponent of a number, if there is one, and gives the double. -/
def readExponent (negative : Bool) (significand : Nat) (exponent : Int) (input : List UInt8) :
    Except Fault (Json × List UInt8) :=
  match input with
  | b :: rest =>
    if isExponentMark b then
      let (down, rest) := exponentSign rest
      match Decimal.run rest with
      | ([], []) => .error .truncated
      | ([], _) => .error .malformed
      | (ds, rest) =>
        match Decimal.valueWithin? maxExponent ds with
        | none =>
          if significand ≠ 0 && !down then .error .malformed
          else .ok (.double (.zero negative), rest)
        | some power => do
          let total := if down then exponent - power else exponent + power
          let x ← scaled negative significand total
          .ok (.double x, rest)
    else do
      let x ← scaled negative significand exponent
      .ok (.double x, b :: rest)
  | [] => do
    let x ← scaled negative significand exponent
    .ok (.double x, [])

/-- Reads what follows the digits before the point: the fraction and the exponent, if any. The
number is an integer if there is neither, no digit was dropped, and it fits 64 bits; minus zero is
a double. -/
def readAfterWhole (negative : Bool) (significand dropped : Nat) (input : List UInt8) :
    Except Fault (Json × List UInt8) :=
  let plain : Bool :=
    match input with
    | [] => true
    | b :: _ => b ≠ 0x2e && !isExponentMark b
  if plain then
    if dropped ≠ 0 then readExponent negative significand dropped input
    else if !negative then .ok (.int significand, input)
    else if significand = 0 || UInt64.size / 2 < significand then
      readExponent negative significand 0 input
    else .ok (.int (-significand), input)
  else
    match input with
    | [] => .error .truncated
    | b :: rest =>
      if b = 0x2e then
        match Decimal.run rest with
        | ([], []) => .error .truncated
        | ([], _) => .error .malformed
        | (ds, rest) =>
          let (significand, left) := gather significand ds
          readExponent negative significand (dropped - (ds.length - left.length : Nat)) rest
      else readExponent negative significand dropped (b :: rest)

/-- Reads a number after its minus sign, if it has one. -/
def readNumber (negative : Bool) (input : List UInt8) : Except Fault (Json × List UInt8) :=
  match Decimal.run input with
  | ([], []) => .error .truncated
  | ([], _) => .error .malformed
  | (0 :: _ :: _, _) => .error .malformed
  | (ds, rest) =>
    let (significand, left) := gather 0 ds
    readAfterWhole negative significand left.length rest

/-! ## Texts -/

/-- The number that a hexadecimal digit spells. -/
def hexOf? (b : UInt8) : Option Nat :=
  let n := b.toNat
  if 48 ≤ n && n ≤ 57 then some (n - 48)
  else if 65 ≤ n && n ≤ 70 then some (n - 55)
  else if 97 ≤ n && n ≤ 102 then some (n - 87)
  else none

/-- Reads four hexadecimal digits. -/
def readHex : List UInt8 → Except Fault (Nat × List UInt8)
  | a :: b :: c :: d :: rest =>
    match hexOf? a, hexOf? b, hexOf? c, hexOf? d with
    | some a, some b, some c, some d => .ok (((a * 16 + b) * 16 + c) * 16 + d, rest)
    | _, _, _, _ => .error .malformed
  | _ => .error .truncated

/-- Reads the second half of a character that takes two escapes, the first half being given. -/
def readLowHalf (high : Nat) (input : List UInt8) : Except Fault (Char × List UInt8) :=
  match input with
  | [] => .error .truncated
  | b :: rest =>
    if b ≠ 0x5c then .error .malformed
    else
      match rest with
      | [] => .error .truncated
      | b :: rest =>
        if b ≠ 0x75 then .error .malformed
        else do
          let (low, rest) ← readHex rest
          if 0xdc00 ≤ low && low ≤ 0xdfff then
            .ok (Char.ofNat (0x10000 + (high - 0xd800) * 0x400 + (low - 0xdc00)), rest)
          else .error .malformed

/-- Reads an escape after its backslash. -/
def readEscape : List UInt8 → Except Fault (Char × List UInt8)
  | [] => .error .truncated
  | b :: rest =>
    if b = 0x22 then .ok ('"', rest)
    else if b = 0x5c then .ok ('\\', rest)
    else if b = 0x2f then .ok ('/', rest)
    else if b = 0x62 then .ok (Char.ofNat 8, rest)
    else if b = 0x66 then .ok (Char.ofNat 12, rest)
    else if b = 0x6e then .ok ('\n', rest)
    else if b = 0x72 then .ok ('\r', rest)
    else if b = 0x74 then .ok ('\t', rest)
    else if b = 0x75 then do
      let (n, rest) ← readHex rest
      if 0xdc00 ≤ n && n ≤ 0xdfff then .error .malformed
      else if 0xd800 ≤ n && n ≤ 0xdbff then readLowHalf n rest
      else .ok (Char.ofNat n, rest)
    else .error .malformed

/-- Reads the bytes of a text up to its closing quote, escapes replaced. The bytes read so far come
in reverse. -/
def readTextBytes :
    List UInt8 → List UInt8 → List UInt8 → Except Fault (List UInt8 × List UInt8)
  | [], _, _ => .error .truncated
  | _ :: steps, done, input =>
    match input with
    | [] => .error .truncated
    | b :: rest =>
      if b = 0x22 then .ok (done.reverse, rest)
      else if b = 0x5c then do
        let (c, rest) ← readEscape rest
        readTextBytes steps ((String.utf8EncodeChar c).reverse ++ done) rest
      else if b < 0x20 then .error .malformed
      else readTextBytes steps (b :: done) rest

/-- Reads a text after its opening quote. -/
def readText (input : List UInt8) : Except Fault (String × List UInt8) := do
  let (bytes, rest) ← readTextBytes (0 :: input) [] input
  match Text.ofUtf8? bytes with
  | some s => .ok (s, rest)
  | none => .error .malformed

/-! ## Arrays and objects -/

/-- Reads the colon between a name and its value. -/
def readColon (input : List UInt8) : Except Fault (Unit × List UInt8) :=
  match skipSpace input with
  | [] => .error .truncated
  | b :: rest => if b = 0x3a then .ok ((), rest) else .error .malformed

/-- Reads up to the next item of an array: `true` if there is one, `false` before the closing
bracket, which is left. -/
def readNextItem (first : Bool) (input : List UInt8) : Except Fault (Bool × List UInt8) :=
  match skipSpace input with
  | [] => .error .truncated
  | b :: rest =>
    if b = 0x5d then .ok (false, b :: rest)
    else if first then .ok (true, b :: rest)
    else if b = 0x2c then
      match skipSpace rest with
      | [] => .error .truncated
      | b :: rest => if b = 0x5d then .error .malformed else .ok (true, b :: rest)
    else .error .malformed

/-- Reads the items of an array and its closing bracket, the items so far coming in reverse. -/
def readItems (item : List UInt8 → Except Fault (Json × List UInt8)) :
    List UInt8 → Bool → List Json → List UInt8 → Except Fault (List Json × List UInt8)
  | [], _, _, _ => .error .truncated
  | _ :: steps, first, done, input => do
    let (more, rest) ← readNextItem first input
    if more then
      let (v, rest) ← item rest
      readItems item steps false (v :: done) rest
    else .ok (done.reverse, rest.drop 1)

/-- Reads up to the text of the next name of an object, the opening quote included: `true` if
there is one, `false` after the closing brace. -/
def readNextName (first : Bool) (input : List UInt8) : Except Fault (Bool × List UInt8) :=
  match skipSpace input with
  | [] => .error .truncated
  | b :: rest =>
    if b = 0x7d then .ok (false, rest)
    else if first then if b = 0x22 then .ok (true, rest) else .error .malformed
    else if b = 0x2c then
      match skipSpace rest with
      | [] => .error .truncated
      | b :: rest => if b = 0x22 then .ok (true, rest) else .error .malformed
    else .error .malformed

/-- Reads the members of an object and its closing brace. `member` reads what follows a name, from
the colon on, and takes it into the state. -/
def readMembers {σ : Type}
    (member : σ → String → List UInt8 → Except Fault (σ × List UInt8)) :
    List UInt8 → Bool → σ → List UInt8 → Except Fault (σ × List UInt8)
  | [], _, _, _ => .error .truncated
  | _ :: steps, first, state, input => do
    let (more, rest) ← readNextName first input
    if more then
      let (name, rest) ← readText rest
      let (state, rest) ← member state name rest
      readMembers member steps false state rest
    else .ok (state, rest)

/-- Reads a scalar that starts with the given byte. -/
def readScalar (b : UInt8) (rest : List UInt8) : Except Fault (Json × List UInt8) :=
  if b = 0x6e then do
    let ((), rest) ← readWord [0x75, 0x6c, 0x6c] rest
    .ok (.null, rest)
  else if b = 0x74 then do
    let ((), rest) ← readWord [0x72, 0x75, 0x65] rest
    .ok (.bool true, rest)
  else if b = 0x66 then do
    let ((), rest) ← readWord [0x61, 0x6c, 0x73, 0x65] rest
    .ok (.bool false, rest)
  else if b = 0x22 then do let (s, rest) ← readText rest; .ok (.string s, rest)
  else if b = 0x2d then readNumber true rest
  else readNumber false (b :: rest)

/-- Reads a value, given how to read one inside an array or object; without that, none may open. -/
def readValueWith (inner : Option (List UInt8 → Except Fault (Json × List UInt8)))
    (input : List UInt8) :
    Except Fault (Json × List UInt8) :=
  match skipSpace input with
  | [] => .error .truncated
  | b :: rest =>
    if b = 0x5b then
      match inner with
      | none => .error .malformed
      | some item => do
        let (items, rest) ← readItems item (0 :: rest) true [] rest
        .ok (.array items, rest)
    else if b = 0x7b then
      match inner with
      | none => .error .malformed
      | some item => do
        let (members, rest) ← readMembers
          (fun members name rest => do
            let ((), rest) ← readColon rest
            let (v, rest) ← item rest
            .ok (insertMember name v members, rest))
          (0 :: rest) true [] rest
        .ok (.object members, rest)
    else readScalar b rest

/-- Reads a value in which at most the given number of arrays and objects are open at once. -/
def readValue : Nat → List UInt8 → Except Fault (Json × List UInt8)
  | 0 => readValueWith none
  | room + 1 => readValueWith (some (readValue room))

/-- Nothing but white space may follow a text's only value. -/
def checkEnd {α : Type} : Except Fault (α × List UInt8) → Except Fault α
  | .error fault => .error fault
  | .ok (a, rest) => if (skipSpace rest).isEmpty then .ok a else .error .malformed

/-- The value of a whole JSON text. -/
def parse (input : List UInt8) : Except Fault Json :=
  checkEnd (readValue maxDepth input)

/-! ## Passing over a value -/

/-- Passes over digits, of which there must be one. -/
def skipSomeDigits (input : List UInt8) : Except Fault (List UInt8) :=
  match Decimal.run input with
  | ([], _) => .error .malformed
  | (_, rest) => .ok rest

/-- Passes over an exponent, if there is one. -/
def skipExponent : List UInt8 → Except Fault (List UInt8)
  | [] => .ok []
  | b :: rest => if isExponentMark b then skipSomeDigits (exponentSign rest).2 else .ok (b :: rest)

/-- Passes over a number after its minus sign, if it has one. An end of the text where a digit
should stand counts as a broken number here. -/
def skipNumber (input : List UInt8) : Except Fault (List UInt8) :=
  match Decimal.run input with
  | ([], _) => .error .malformed
  | (0 :: _ :: _, _) => .error .malformed
  | (_, []) => .ok []
  | (_, b :: rest) =>
    if b = 0x2e then do skipExponent (← skipSomeDigits rest) else skipExponent (b :: rest)

/-- Passes over an escape after its backslash. -/
def skipEscape : List UInt8 → Except Fault (List UInt8)
  | [] => .error .truncated
  | b :: rest =>
    if b = 0x75 then do let (_, rest) ← readHex rest; .ok rest
    else if b ∈ [0x22, 0x5c, 0x2f, 0x62, 0x66, 0x6e, 0x72, 0x74] then .ok rest
    else .error .malformed

/-- Passes over the rest of a text and its closing quote. -/
def skipText : List UInt8 → List UInt8 → Except Fault (List UInt8)
  | [], _ => .error .truncated
  | _ :: steps, input =>
    match input with
    | [] => .error .truncated
    | b :: rest =>
      if b = 0x22 then .ok rest
      else if b = 0x5c then do skipText steps (← skipEscape rest)
      else if b < 0x20 then .error .malformed
      else skipText steps rest

/-- Passes over a scalar that starts with the given byte. -/
def skipScalar (b : UInt8) (rest : List UInt8) : Except Fault (List UInt8) :=
  if b = 0x6e then do let ((), rest) ← readWord [0x75, 0x6c, 0x6c] rest; .ok rest
  else if b = 0x74 then do let ((), rest) ← readWord [0x72, 0x75, 0x65] rest; .ok rest
  else if b = 0x66 then do let ((), rest) ← readWord [0x61, 0x6c, 0x73, 0x65] rest; .ok rest
  else if b = 0x22 then skipText (0 :: rest) rest
  else if b = 0x2d then skipNumber rest
  else skipNumber (b :: rest)

/-- Passes over the name of a member, from its opening quote on, and the colon after it. -/
def skipName (input : List UInt8) : Except Fault (List UInt8) :=
  match skipSpace input with
  | [] => .error .truncated
  | b :: rest =>
    if b = 0x22 then do
      let ((), rest) ← readColon (← skipText (0 :: rest) rest)
      .ok rest
    else .error .malformed

/-- An array or object that is open while a value is passed over. -/
inductive Open where
  | array
  | object
deriving DecidableEq, Repr

/-- Passes over values until nothing is open any more. With `before` the next thing is a value,
otherwise a value has just ended. -/
def skipOpen : List UInt8 → Bool → List Open → List UInt8 → Except Fault (List UInt8)
  | [], _, _, _ => .error .truncated
  | _ :: steps, true, opened, input =>
    match skipSpace input with
    | [] => .error .truncated
    | b :: rest =>
      if b = 0x5b then
        match skipSpace rest with
        | [] => .error .truncated
        | b :: inside =>
          if b = 0x5d then skipOpen steps false opened inside
          else skipOpen steps true (.array :: opened) (b :: inside)
      else if b = 0x7b then
        match skipSpace rest with
        | [] => .error .truncated
        | b :: inside =>
          if b = 0x7d then skipOpen steps false opened inside
          else do skipOpen steps true (.object :: opened) (← skipName (b :: inside))
      else do skipOpen steps false opened (← skipScalar b rest)
  | _ :: _, false, [], input => .ok input
  | _ :: steps, false, inner :: opened, input =>
    match skipSpace input with
    | [] => .error .truncated
    | b :: rest =>
      if b = 0x2c then
        match inner with
        | .array => skipOpen steps true (inner :: opened) rest
        | .object => do skipOpen steps true (inner :: opened) (← skipName rest)
      else if b = (match inner with | .array => 0x5d | .object => 0x7d) then
        skipOpen steps false opened rest
      else .error .malformed

/-- Passes over a value. -/
def skipValue (input : List UInt8) : Except Fault (List UInt8) :=
  skipOpen (0 :: input) true [] input

end PeerRpc.Json
