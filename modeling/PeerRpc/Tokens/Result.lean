import PeerRpc.Shape.Record
import PeerRpc.Shape.Union

/-!
# Results of semantic token requests

A server describes the tokens of a document either in full, as an array of numbers, or as edits to
the array that it sent before. Both may carry a name under which the client asks for later edits.
A result with `data` is a full one.
-/

namespace PeerRpc.Tokens

/-- The names that token type and modifier numbers stand for. -/
structure Legend where
  /-- The name of each token type. -/
  types : List String
  /-- The name of each modifier bit. -/
  modifiers : List String
deriving DecidableEq, Repr

instance : Shape Legend where
  name := "lspwire_protocol::types::SemanticTokensLegend"
  decode := Shape.decodeRecord "SemanticTokensLegend"
    (fun members => do
      let modifiers ← Shape.field? "tokenModifiers" members
      let types ← Shape.field? "tokenTypes" members
      let types ← Shape.required "tokenTypes" types
      let modifiers ← Shape.required "tokenModifiers" modifiers
      .ok ⟨types, modifiers⟩)
    (fun items => do
      let (types, items) ← Shape.item "SemanticTokensLegend" 2 0 items
      let (modifiers, items) ← Shape.item "SemanticTokensLegend" 2 1 items
      .ok (⟨types, modifiers⟩, items))
  encode l := .object
    [("tokenTypes", Shape.encode l.types), ("tokenModifiers", Shape.encode l.modifiers)]

/-- All tokens of a document. -/
structure Full where
  /-- The name of this result, if the server gave it one. -/
  resultId : Option String
  /-- The tokens, five numbers each, relative to the token before. -/
  data : List UInt32
deriving DecidableEq, Repr

instance : Shape Full where
  name := "lspwire_protocol::types::SemanticTokens"
  decode := Shape.decodeRecord "SemanticTokens"
    (fun members => do
      let data ← Shape.field? "data" members
      let resultId ← Shape.optionalField? "resultId" members
      let data ← Shape.required "data" data
      .ok ⟨resultId, data⟩)
    (fun items => do
      let (resultId, items) ← Shape.optionalItem? items
      let (data, items) ← Shape.item "SemanticTokens" 2 1 items
      .ok (⟨resultId, data⟩, items))
  encode t := .object
    (Shape.optionalMember "resultId" t.resultId ++ [("data", Shape.encode t.data)])

/-- The replacement of a stretch of the array that was sent before. -/
structure Edit where
  start : UInt32
  /-- How many numbers are taken out. -/
  deleteCount : UInt32
  /-- The numbers that are put in. -/
  data : Option (List UInt32)
deriving DecidableEq, Repr

instance : Shape Edit where
  name := "lspwire_protocol::types::SemanticTokensEdit"
  decode := Shape.decodeRecord "SemanticTokensEdit"
    (fun members => do
      let data ← Shape.optionalField? "data" members
      let deleteCount ← Shape.field? "deleteCount" members
      let start ← Shape.field? "start" members
      let start ← Shape.required "start" start
      let deleteCount ← Shape.required "deleteCount" deleteCount
      .ok ⟨start, deleteCount, data⟩)
    (fun items => do
      let (start, items) ← Shape.item "SemanticTokensEdit" 3 0 items
      let (deleteCount, items) ← Shape.item "SemanticTokensEdit" 3 1 items
      let (data, items) ← Shape.optionalItem? items
      .ok (⟨start, deleteCount, data⟩, items))
  encode e := .object
    ([("start", Shape.encode e.start), ("deleteCount", Shape.encode e.deleteCount)] ++
      Shape.optionalMember "data" e.data)

/-- Edits to the array that was sent before. -/
structure Delta where
  /-- The name of the edited result, if the server gave it one. -/
  resultId : Option String
  /-- The edits, all of them in terms of the array before any of them. -/
  edits : List Edit
deriving DecidableEq, Repr

instance : Shape Delta where
  name := "lspwire_protocol::types::SemanticTokensDelta"
  decode := Shape.decodeRecord "SemanticTokensDelta"
    (fun members => do
      let edits ← Shape.field? "edits" members
      let resultId ← Shape.optionalField? "resultId" members
      let edits ← Shape.required "edits" edits
      .ok ⟨resultId, edits⟩)
    (fun items => do
      let (resultId, items) ← Shape.optionalItem? items
      let (edits, items) ← Shape.item "SemanticTokensDelta" 2 1 items
      .ok (⟨resultId, edits⟩, items))
  encode d := .object
    (Shape.optionalMember "resultId" d.resultId ++ [("edits", Shape.encode d.edits)])

/-- The answer to a request for edits: all tokens anew, or edits. -/
abbrev Result := OneOfTwo Full Delta

end PeerRpc.Tokens
