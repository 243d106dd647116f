import PeerRpc.Frame.Scan

/-!
# The frame decoder

A decoder is fed bytes as they arrive and gives payloads as they become complete. It keeps a buffer
and the number of bytes at its front that have been used; the used bytes are removed only when
there are many of them and more bytes arrive. What the decoder does depends on its unread bytes
alone. After a fault it is empty.
-/

namespace PeerRpc.Frame

/-- The largest payload that is accepted unless another limit is set: ten mebibytes. -/
def defaultLimit : Nat := 10 * 1024 * 1024

/-- The number of used bytes from which on they are removed. -/
def compactionThreshold : Nat := 4096

/-- The state of a decoder. -/
structure Decoder where
  buffer : Array UInt8
  /-- How many bytes at the front of the buffer have been used. -/
  used : Nat
  /-- The largest payload that is accepted. -/
  limit : Nat
deriving Repr

namespace Decoder

/-- A decoder without bytes. -/
def empty (limit : Nat) : Decoder :=
  ⟨#[], 0, limit⟩

/-- The bytes that have not been used yet. -/
def unread (d : Decoder) : List UInt8 :=
  d.buffer.toList.drop d.used

/-- The decoder with more bytes. -/
def feed (d : Decoder) (bytes : List UInt8) : Decoder :=
  if compactionThreshold ≤ d.used then
    { d with buffer := d.buffer.extract d.used d.buffer.size ++ bytes.toArray, used := 0 }
  else { d with buffer := d.buffer ++ bytes.toArray }

/-- Whether some bytes have not been used yet. -/
def hasUnread (d : Decoder) : Bool :=
  d.used < d.buffer.size

/-- The decoder without its bytes. -/
def clear (d : Decoder) : Decoder :=
  { d with buffer := #[], used := 0 }

/-- Takes the next payload, if it is complete. -/
def next (d : Decoder) : Except Fault (Option (List UInt8)) × Decoder :=
  match scan d.limit d.buffer d.used with
  | .waiting start => (.ok none, { d with used := start })
  | .frame payload stop => (.ok (some payload), { d with used := stop })
  | .broken fault => (.error fault, d.clear)

theorem length_unread (d : Decoder) : d.unread.length = d.buffer.size - d.used := by
  simp [unread]

theorem next_unread_length {d d' : Decoder} {payload : List UInt8}
    (h : d.next = (.ok (some payload), d')) : d'.unread.length < d.unread.length := by
  unfold next at h
  split at h
  · simp at h
  · rename_i p stop hs
    have := scan_frame_place hs
    simp only [Prod.mk.injEq, Except.ok.injEq, Option.some.injEq] at h
    simp only [length_unread, ← h.2]
    omega
  · simp at h

theorem next_waiting_length {d d' : Decoder} (h : d.next = (.ok none, d')) :
    d'.unread.length ≤ d.unread.length := by
  unfold next at h
  split at h
  · rename_i start hs
    have := scan_waiting_place hs
    simp only [Prod.mk.injEq, true_and] at h
    simp only [length_unread, ← h]
    omega
  · simp at h
  · simp at h

theorem length_unread_feed (d : Decoder) (bytes : List UInt8) :
    (d.feed bytes).unread.length ≤ d.unread.length + bytes.length := by
  unfold feed
  split
  · simp [length_unread]
  · simp only [length_unread, Array.size_append, List.size_toArray]
    omega

/-- Takes all payloads that are complete. A fault hides the payloads before it. -/
def drain (d : Decoder) : Except Fault (List (List UInt8)) × Decoder :=
  match h : d.next with
  | (.ok (some payload), d') =>
    have := next_unread_length h
    let (payloads, d'') := drain d'
    (payloads.map (payload :: ·), d'')
  | (.ok none, d') => (.ok [], d')
  | (.error fault, d') => (.error fault, d')
termination_by d.unread.length

/-- Feeds bytes and takes all payloads that are complete. -/
def decode (d : Decoder) (bytes : List UInt8) : Except Fault (List (List UInt8)) × Decoder :=
  (d.feed bytes).drain

end Decoder

end PeerRpc.Frame
