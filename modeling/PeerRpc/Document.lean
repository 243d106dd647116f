import PeerRpc.Shape.Record

/-!
# Places in a document

Positions count lines and characters from zero and are ordered by line, then by character. A range
runs from its start to its end, the end left out.
-/

namespace PeerRpc

/-- A place in a text document, counted from zero. -/
structure Position where
  line : UInt32
  character : UInt32
deriving DecidableEq, Repr

namespace Position

/-- Whether a position comes before another: on an earlier line, or earlier on the same one. -/
def before (p q : Position) : Bool :=
  p.line < q.line || (p.line = q.line && p.character < q.character)

/-- The order of positions. -/
def order (p q : Position) : Ordering :=
  if p.before q then .lt else if p = q then .eq else .gt

instance : Shape Position where
  name := "lspwire_protocol::types::Position"
  decode := Shape.decodeRecord "Position"
    (fun members => do
      let character ← Shape.field? "character" members
      let line ← Shape.field? "line" members
      let line ← Shape.required "line" line
      let character ← Shape.required "character" character
      .ok ⟨line, character⟩)
    (fun items => do
      let (line, items) ← Shape.item "Position" 2 0 items
      let (character, items) ← Shape.item "Position" 2 1 items
      .ok (⟨line, character⟩, items))
  encode p := .object [("line", Shape.encode p.line), ("character", Shape.encode p.character)]

end Position

/-- The text from a position up to, but not including, another. -/
structure Range where
  /-- The first position inside. -/
  start : Position
  /-- The first position after it. -/
  stop : Position
deriving DecidableEq, Repr

instance : Shape Range where
  name := "lspwire_protocol::types::Range"
  decode := Shape.decodeRecord "Range"
    (fun members => do
      let stop ← Shape.field? "end" members
      let start ← Shape.field? "start" members
      let start ← Shape.required "start" start
      let stop ← Shape.required "end" stop
      .ok ⟨start, stop⟩)
    (fun items => do
      let (start, items) ← Shape.item "Range" 2 0 items
      let (stop, items) ← Shape.item "Range" 2 1 items
      .ok (⟨start, stop⟩, items))
  encode r := .object [("start", Shape.encode r.start), ("end", Shape.encode r.stop)]

/-- A text document, named by its URI. -/
structure DocumentId where
  uri : String
deriving DecidableEq, Repr

instance : Shape DocumentId where
  name := "lspwire_protocol::types::TextDocumentIdentifier"
  decode := Shape.decodeRecord "TextDocumentIdentifier"
    (fun members => do
      let uri ← Shape.field? "uri" members
      let uri ← Shape.required "uri" uri
      .ok ⟨uri⟩)
    (fun items => do
      let (uri, items) ← Shape.item "TextDocumentIdentifier" 1 0 items
      .ok (⟨uri⟩, items))
  encode d := .object [("uri", Shape.encode d.uri)]

end PeerRpc
