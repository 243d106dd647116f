import PeerRpc.Document
import PeerRpc.Tokens.Result

/-!
# The token buffer

A client keeps a copy of the array of numbers that describes a document's tokens, five numbers for
each: the line relative to the token before, the start character relative to it if it is on the same
line, the length, the type and the modifiers. Full results replace the array, edits change it. The
tokens of a range are read off with their absolute places. Neither the order of the tokens nor that
there are five numbers for each is checked.
-/

namespace PeerRpc.Tokens

/-- The copy of a document's token array. -/
structure Buffer where
  /-- What the type and modifier numbers stand for. -/
  legend : Legend
  /-- The array. -/
  data : List UInt32 := []
  /-- The name of the last result that was applied. -/
  resultId : Option String := none
deriving Repr

/-- A token with its absolute place and the name of its type. -/
structure Token where
  /-- Where the token stands; it does not leave its line. -/
  range : Range
  /-- The name of its type. -/
  type : String
  /-- The names of its modifiers; they are not read, so there are none. -/
  modifiers : List String
deriving DecidableEq, Repr

/-- How many numbers describe a token. -/
def stride : Nat := 5

namespace Buffer

/-- A buffer without tokens. -/
def empty (legend : Legend) : Buffer :=
  { legend }

/-- The number of whole tokens. -/
def size (b : Buffer) : Nat :=
  b.data.length / stride

/-- Whether there is nothing in the array. -/
def isEmpty (b : Buffer) : Bool :=
  b.data.isEmpty

/-- The length of the longest common beginning of two lists. -/
def commonLength : List UInt32 → List UInt32 → Nat
  | a :: as, b :: bs => if a = b then commonLength as bs + 1 else 0
  | _, _ => 0

/-- The buffer with another array; the common beginning of the two arrays stays in place. -/
def applyFull (b : Buffer) (data : List UInt32) : Buffer :=
  let n := commonLength b.data data
  { b with data := b.data.take n ++ data.drop n }

/-- An array with the numbers from one index up to another replaced. -/
def splice (data : List UInt32) (start stop : Nat) (insert : List UInt32) : List UInt32 :=
  data.take start ++ insert ++ data.drop stop

/-- Where an edit starts in an array of a length: at its end at the latest. -/
def editStart (length : Nat) (e : Edit) : Nat :=
  min e.start.toNat length

/-- Where an edit stops in an array of a length: at its end at the latest. -/
def editStop (length : Nat) (e : Edit) : Nat :=
  min (editStart length e + e.deleteCount.toNat) length

/-- An array after one edit. -/
def applyEdit (data : List UInt32) (e : Edit) : List UInt32 :=
  splice data (editStart data.length e) (editStop data.length e) (e.data.getD [])

/-- Edits from the one that starts last to the one that starts first; those that start together
keep their order. -/
def fromTheEnd (edits : List Edit) : List Edit :=
  edits.mergeSort fun a b => b.start ≤ a.start

/-- The buffer after some edits, applied from the end of the array to its beginning, so that each
finds the numbers where it expects them. -/
def applyDelta (b : Buffer) (edits : List Edit) : Buffer :=
  { b with data := (fromTheEnd edits).foldl applyEdit b.data }

/-- The buffer after a result of either kind, whose name it remembers. -/
def apply (b : Buffer) : Result → Buffer
  | .first full => { b with resultId := full.resultId }.applyFull full.data
  | .second delta => { b with resultId := delta.resultId }.applyDelta delta.edits

/-- Reads tokens that overlap a range off an array, the place of the token before being given.
Reading ends with the first token that starts at the end of the range or after it. -/
def tokensFrom (legend : Legend) (range : Range) : Position → List UInt32 → List Token
  | before, deltaLine :: deltaStart :: length :: type :: _ :: rest =>
    let line := before.line + deltaLine
    let character := if deltaLine = 0 then before.character + deltaStart else deltaStart
    let start : Position := ⟨line, character⟩
    let stop : Position := ⟨line, character + length⟩
    if !start.before range.stop then []
    else
      let others := tokensFrom legend range start rest
      if stop.before range.start then others
      else
        match legend.types[type.toNat]? with
        | none => others
        | some name => ⟨⟨start, stop⟩, name, []⟩ :: others
  | _, _ => []

/-- The tokens that overlap a range; one that only touches it counts, one whose type has no name
does not. -/
def tokens (b : Buffer) (range : Range) : List Token :=
  tokensFrom b.legend range ⟨0, 0⟩ b.data

end Buffer

end PeerRpc.Tokens
