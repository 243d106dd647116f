import PeerRpc.Json.Reader
import PeerRpc.Rpc.Envelope

/-!
# Reading an envelope from a payload

An envelope is read straight from the bytes of a payload, so that the first fault in reading order
is reported, be it in the text or in a field. A field may be named only once; members of other
names, the protocol version among them, are passed over without a look at what they hold. An
array is read as well: it holds the fields in the order of declaration.

`Envelope.ofPayload` gives the envelope. `requestIdOf?` finds the identifier of a message that
looks like a request even if it is no envelope, so that the request can be answered.
-/

namespace PeerRpc.Rpc

open Json

/-- Reads a value that may be null. -/
def readOptional {α : Type} (read : List UInt8 → Except Fault (α × List UInt8))
    (input : List UInt8) : Except Fault (Option α × List UInt8) :=
  match skipSpace input with
  | [] => .error .truncated
  | b :: rest =>
    if b = 0x6e then do
      let ((), rest) ← readWord [0x75, 0x6c, 0x6c] rest
      .ok (none, rest)
    else do
      let (a, rest) ← read (b :: rest)
      .ok (some a, rest)

/-- Reads a value of a type whose values are scalars. -/
def readPlain {α : Type} [Shape α] (input : List UInt8) : Except Fault (α × List UInt8) :=
  match skipSpace input with
  | [] => .error .truncated
  | b :: rest => do
    let (v, rest) ←
      if b = 0x5b then .ok (.array [], rest)
      else if b = 0x7b then .ok (.object [], rest)
      else readScalar b rest
    let a ← Shape.decode v
    .ok (a, rest)

/-- Reads the next item of an array, if there is one. -/
def readItem? {α : Type} (read : List UInt8 → Except Fault (α × List UInt8)) (first : Bool)
    (input : List UInt8) : Except Fault (Option α × List UInt8) := do
  let (more, rest) ← readNextItem first input
  if more then
    let (a, rest) ← read rest
    .ok (some a, rest)
  else .ok (none, rest)

/-- Reads the closing bracket of an array whose items have been read. -/
def readClose (input : List UInt8) : Except Fault (Unit × List UInt8) :=
  match skipSpace input with
  | [] => .error .truncated
  | b :: rest => if b = 0x5d then .ok ((), rest) else .error .malformed

/-- Reads the value of a field named for the first time, from the colon on. -/
def readField {α : Type} (name : String) (seen : Option α)
    (read : List UInt8 → Except Fault (α × List UInt8)) (input : List UInt8) :
    Except Fault (α × List UInt8) :=
  if seen.isSome then .error (.repeatedField name)
  else do
    let ((), rest) ← readColon input
    read rest

/-- Passes over a member that is no field, from the colon on. -/
def skipField {σ : Type} (state : σ) (input : List UInt8) : Except Fault (σ × List UInt8) := do
  let ((), rest) ← readColon input
  let rest ← skipValue rest
  .ok (state, rest)

/-! ## Errors -/

/-- The fields of an error that have been read so far. -/
structure Failure.Draft where
  code : Option Code := none
  message : Option String := none
  /-- The data, which may be null. -/
  data : Option (Option Json) := none

/-- Reads the data of an error, which stand inside the error and the envelope. -/
def Failure.readData : List UInt8 → Except Fault (Option Json × List UInt8) :=
  readOptional (readValue (maxDepth - 2))

/-- Reads a member of an error after its name. -/
def Failure.readMember (draft : Failure.Draft) (name : String) (input : List UInt8) :
    Except Fault (Failure.Draft × List UInt8) :=
  if name = "code" then do
    let (code, rest) ← readField name draft.code readPlain input
    .ok ({ draft with code := some code }, rest)
  else if name = "message" then do
    let (message, rest) ← readField name draft.message readPlain input
    .ok ({ draft with message := some message }, rest)
  else if name = "data" then do
    let (data, rest) ← readField name draft.data Failure.readData input
    .ok ({ draft with data := some data }, rest)
  else skipField draft input

/-- The error of a draft, in which the code and the message must be there. -/
def Failure.ofDraft (draft : Failure.Draft) : Except Fault Failure := do
  let code ← Shape.required "code" draft.code
  let message ← Shape.required "message" draft.message
  .ok ⟨code, message, draft.data.join⟩

/-- An item of a record's array that must be there. -/
def requiredItem {α : Type} (record : String) (size index : Nat) : Option α → Except Fault α
  | some a => .ok a
  | none => .error (.tooFewItems index record size)

/-- Reads an error. -/
def Failure.read (input : List UInt8) : Except Fault (Failure × List UInt8) :=
  match skipSpace input with
  | [] => .error .truncated
  | b :: rest =>
    if b = 0x7b then do
      let (draft, rest) ← readMembers Failure.readMember (0 :: rest) true {} rest
      let failure ← Failure.ofDraft draft
      .ok (failure, rest)
    else if b = 0x5b then do
      let (code, rest) ← readItem? readPlain true rest
      let code ← requiredItem Failure.record 3 0 code
      let (message, rest) ← readItem? readPlain false rest
      let message ← requiredItem Failure.record 3 1 message
      let (data, rest) ← readItem? Failure.readData false rest
      let ((), rest) ← readClose rest
      .ok (⟨code, message, data.join⟩, rest)
    else do
      let (v, _) ← readScalar b rest
      .error (.wrongType v ("struct " ++ Failure.record))

/-! ## Envelopes -/

namespace Envelope

/-- The fields of an envelope that have been read so far; those that may be null are there when
they have been named. -/
structure Draft where
  id : Option (Option Id) := none
  method : Option (Option String) := none
  params : Option Json := none
  result : Option Json := none
  error : Option (Option Failure) := none

/-- The envelope of a draft. -/
def ofDraft (draft : Draft) : Envelope :=
  { id := draft.id.join, method := draft.method.join, params := draft.params,
    result := draft.result, error := draft.error.join }

/-- Reads any value inside an envelope. -/
def readAny : List UInt8 → Except Fault (Json × List UInt8) :=
  readValue (maxDepth - 1)

/-- Reads an identifier, which may be null. -/
def readId : List UInt8 → Except Fault (Option Id × List UInt8) :=
  readOptional fun input => do
    let (v, rest) ← readAny input
    let id ← Shape.decode v
    .ok (id, rest)

/-- Reads a member of an envelope after its name. -/
def readMember (draft : Draft) (name : String) (input : List UInt8) :
    Except Fault (Draft × List UInt8) :=
  if name = "id" then do
    let (id, rest) ← readField name draft.id readId input
    .ok ({ draft with id := some id }, rest)
  else if name = "method" then do
    let (method, rest) ← readField name draft.method (readOptional readPlain) input
    .ok ({ draft with method := some method }, rest)
  else if name = "params" then do
    let (params, rest) ← readField name draft.params readAny input
    .ok ({ draft with params := some params }, rest)
  else if name = "result" then do
    let (result, rest) ← readField name draft.result readAny input
    .ok ({ draft with result := some result }, rest)
  else if name = "error" then do
    let (error, rest) ← readField name draft.error (readOptional Failure.read) input
    .ok ({ draft with error := some error }, rest)
  else skipField draft input

/-- Reads an envelope. -/
def read (input : List UInt8) : Except Fault (Envelope × List UInt8) :=
  match skipSpace input with
  | [] => .error .truncated
  | b :: rest =>
    if b = 0x7b then do
      let (draft, rest) ← readMembers readMember (0 :: rest) true {} rest
      .ok (ofDraft draft, rest)
    else if b = 0x5b then do
      let (id, rest) ← readItem? readId true rest
      let (method, rest) ← readItem? (readOptional readPlain) false rest
      let (params, rest) ← readItem? readAny false rest
      let (result, rest) ← readItem? readAny false rest
      let (error, rest) ← readItem? (readOptional Failure.read) false rest
      let ((), rest) ← readClose rest
      .ok (ofDraft { id, method, params, result, error }, rest)
    else do
      let (v, _) ← readScalar b rest
      .error (.wrongType v ("struct " ++ record))

/-- The envelope that a payload holds. -/
def ofPayload (payload : List UInt8) : Except Fault Envelope :=
  checkEnd (read payload)

end Envelope

/-- The identifier of a payload that is a JSON object with a method of any form. -/
def requestIdOf? (payload : List UInt8) : Option Id :=
  match parse payload with
  | .ok (.object members) => do
    let _ ← member? "method" members
    Id.ofJson? (← member? "id" members)
  | _ => none

end PeerRpc.Rpc
