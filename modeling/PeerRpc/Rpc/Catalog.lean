import PeerRpc.Document
import PeerRpc.Rpc.Method
import PeerRpc.Tokens.Result

/-!
# The methods that the library itself knows

The requests for semantic tokens and for shutting down, and the notifications around the life of a
session. An application adds its own in the same way.
-/

namespace PeerRpc.Rpc

/-- Which request is given up. -/
structure CancelParams where
  id : Id
deriving DecidableEq, Repr

instance : Shape CancelParams where
  name := "lspwire_protocol::types::CancelParams"
  decode := Shape.decodeRecord "CancelParams"
    (fun members => do
      let id ← Shape.field? "id" members
      let id ← Shape.required "id" id
      .ok ⟨id⟩)
    (fun items => do
      let (id, items) ← Shape.item "CancelParams" 1 0 items
      .ok (⟨id⟩, items))
  encode p := .object [("id", Shape.encode p.id)]

/-- Nothing, written as an object without members. -/
structure InitializedParams where
deriving DecidableEq, Repr

instance : Shape InitializedParams where
  name := "lspwire_protocol::types::InitializedParams"
  decode := Shape.decodeRecord "InitializedParams" (fun _ => .ok ⟨⟩) (fun items => .ok (⟨⟩, items))
  encode _ := .object []

/-- The document whose tokens are asked for. -/
structure TokensParams where
  document : DocumentId
deriving DecidableEq, Repr

instance : Shape TokensParams where
  name := "lspwire_protocol::types::SemanticTokensParams"
  decode := Shape.decodeRecord "SemanticTokensParams"
    (fun members => do
      let document ← Shape.field? "textDocument" members
      let document ← Shape.required "textDocument" document
      .ok ⟨document⟩)
    (fun items => do
      let (document, items) ← Shape.item "SemanticTokensParams" 1 0 items
      .ok (⟨document⟩, items))
  encode p := .object [("textDocument", Shape.encode p.document)]

/-- The document whose token edits are asked for, and the result that they start from. -/
structure TokensDeltaParams where
  document : DocumentId
  /-- The name of the result that the edits start from. -/
  previousResultId : String
deriving DecidableEq, Repr

instance : Shape TokensDeltaParams where
  name := "lspwire_protocol::types::SemanticTokensDeltaParams"
  decode := Shape.decodeRecord "SemanticTokensDeltaParams"
    (fun members => do
      let previousResultId ← Shape.field? "previousResultId" members
      let document ← Shape.field? "textDocument" members
      let document ← Shape.required "textDocument" document
      let previousResultId ← Shape.required "previousResultId" previousResultId
      .ok ⟨document, previousResultId⟩)
    (fun items => do
      let (document, items) ← Shape.item "SemanticTokensDeltaParams" 2 0 items
      let (previousResultId, items) ← Shape.item "SemanticTokensDeltaParams" 2 1 items
      .ok (⟨document, previousResultId⟩, items))
  encode p := .object
    [("textDocument", Shape.encode p.document),
      ("previousResultId", Shape.encode p.previousResultId)]

/-- The part of a document whose tokens are asked for. -/
structure TokensRangeParams where
  document : DocumentId
  range : Range
deriving DecidableEq, Repr

instance : Shape TokensRangeParams where
  name := "lspwire_protocol::types::SemanticTokensRangeParams"
  decode := Shape.decodeRecord "SemanticTokensRangeParams"
    (fun members => do
      let range ← Shape.field? "range" members
      let document ← Shape.field? "textDocument" members
      let document ← Shape.required "textDocument" document
      let range ← Shape.required "range" range
      .ok ⟨document, range⟩)
    (fun items => do
      let (document, items) ← Shape.item "SemanticTokensRangeParams" 2 0 items
      let (range, items) ← Shape.item "SemanticTokensRangeParams" 2 1 items
      .ok (⟨document, range⟩, items))
  encode p := .object
    [("textDocument", Shape.encode p.document), ("range", Shape.encode p.range)]

namespace Catalog

/-- Asks the peer to prepare for its end. -/
def shutdown : RequestMethod :=
  .ofShapes "shutdown" Unit Unit

/-- Asks for all tokens of a document. -/
def tokensFull : RequestMethod :=
  .ofShapes "textDocument/semanticTokens/full" TokensParams (Option Tokens.Full)

/-- Asks for the edits that lead from an earlier result to the present one. -/
def tokensDelta : RequestMethod :=
  .ofShapes "textDocument/semanticTokens/full/delta" TokensDeltaParams (Option Tokens.Result)

/-- Asks for the tokens of a part of a document. -/
def tokensRange : RequestMethod :=
  .ofShapes "textDocument/semanticTokens/range" TokensRangeParams (Option Tokens.Full)

/-- Tells that the client is ready. -/
def initialized : NotificationMethod :=
  .ofShape "initialized" InitializedParams

/-- Tells the peer to end. -/
def exit : NotificationMethod :=
  .ofShape "exit" Unit

/-- Tells the peer that a request has been given up. -/
def cancel : NotificationMethod :=
  .ofShape "$/cancelRequest" CancelParams

/-- All requests of the catalog. -/
def requests : List RequestMethod :=
  [shutdown, tokensFull, tokensDelta, tokensRange]

/-- All notifications of the catalog. -/
def notifications : List NotificationMethod :=
  [initialized, exit, cancel]

end Catalog

end PeerRpc.Rpc
