import PeerRpc.Frame.Decoder

/-!
# Reading frames from a source

A source hands out bytes piece by piece, and may end or fail once all of them are read. A reader
takes from it as many pieces as it needs for the next payload. When the source has nothing to give,
what was read stays with the decoder, and the next attempt goes on from there.
-/

namespace PeerRpc.Frame

/-- What comes after the bytes of a source. -/
inductive Ending where
  /-- Perhaps more bytes. -/
  | undecided
  /-- The end. -/
  | ended
  /-- A failure, for a reason given in words. -/
  | failed (reason : String)
deriving DecidableEq, Repr

/-- A source of bytes. -/
structure Source where
  /-- The pieces that can be read, each of them in a read of its own. -/
  pieces : List (List UInt8) := []
  /-- What comes after them. -/
  ending : Ending := .undecided
deriving Repr

namespace Source

/-- The source with one more piece; an empty one is no piece. -/
def push (s : Source) (bytes : List UInt8) : Source :=
  if bytes.isEmpty then s else { s with pieces := s.pieces ++ [bytes] }

/-- The bytes that can be read. -/
def bytes (s : Source) : List UInt8 :=
  s.pieces.flatten

/-- A bound on the number of reads. -/
def size (s : Source) : Nat :=
  s.bytes.length + s.pieces.length

/-- The pieces after a read of at most the given number of bytes, and at least one, from the first
of them. -/
def after (size : Nat) (piece : List UInt8) (pieces : List (List UInt8)) : List (List UInt8) :=
  match piece.drop (max 1 size) with
  | [] => pieces
  | left => left :: pieces

theorem size_after (n : Nat) (piece : List UInt8) (pieces : List (List UInt8)) (ending : Ending) :
    size ⟨after n piece pieces, ending⟩ < size ⟨piece :: pieces, ending⟩ := by
  unfold after
  split
  · simp only [size, bytes, List.flatten_cons, List.length_append, List.length_cons]
    omega
  · rename_i hne
    have hlen := List.length_drop (i := max 1 n) (l := piece)
    have hpos : (piece.drop (max 1 n)).length ≠ 0 := by
      intro h0
      exact hne (List.eq_nil_of_length_eq_zero h0)
    simp only [size, bytes, List.flatten_cons, List.length_append, List.length_cons]
    omega

theorem length_bytes_after (n : Nat) (piece : List UInt8) (pieces : List (List UInt8))
    (ending : Ending) :
    (piece.take (max 1 n)).length + (bytes ⟨after n piece pieces, ending⟩).length =
      (bytes ⟨piece :: pieces, ending⟩).length := by
  have hsplit := congrArg List.length (List.take_append_drop (max 1 n) piece)
  rw [List.length_append] at hsplit
  unfold after
  split
  · rename_i hnil
    rw [hnil] at hsplit
    simp only [bytes, List.flatten_cons, List.length_append, List.length_nil] at hsplit ⊢
    omega
  · simp only [bytes, List.flatten_cons, List.length_append]
    omega

end Source

/-- What a reader gives. -/
inductive Received where
  /-- The next payload. -/
  | payload (bytes : List UInt8)
  /-- Nothing yet. -/
  | waiting
  /-- Nothing any more; whether the source ended inside a frame. -/
  | ended (cutShort : Bool)
  /-- The reader cannot go on. -/
  | failed (fault : ChannelFault)
deriving Repr

/-- The state of a reader. -/
structure Reader where
  /-- The decoder of what has been read. -/
  decoder : Decoder
  /-- The bytes that are still to be read. -/
  source : Source
  /-- The largest number of bytes per read; zero counts as one. -/
  chunk : Nat
  /-- Whether the end or a fault has been reported. -/
  finished : Bool := false
deriving Repr

namespace Reader

/-- A reader of a source that has no bytes yet. -/
def start (limit chunk : Nat) : Reader :=
  ⟨.empty limit, {}, chunk, false⟩

/-- The number of bytes that have not been used yet, read or not. -/
def remaining (r : Reader) : Nat :=
  r.decoder.unread.length + r.source.bytes.length

/-- Reads as much as the next payload needs. -/
def advance (decoder : Decoder) (source : Source) (chunk : Nat) : Received × Reader :=
  match decoder.next with
  | (.ok (some payload), decoder) => (.payload payload, ⟨decoder, source, chunk, false⟩)
  | (.error fault, decoder) => (.failed (.frame fault), ⟨decoder, source, chunk, true⟩)
  | (.ok none, decoder) =>
    match source with
    | ⟨piece :: pieces, ending⟩ =>
      advance (decoder.feed (piece.take (max 1 chunk))) ⟨Source.after chunk piece pieces, ending⟩
        chunk
    | ⟨[], .undecided⟩ => (.waiting, ⟨decoder, source, chunk, false⟩)
    | ⟨[], .ended⟩ => (.ended decoder.hasUnread, ⟨decoder, source, chunk, true⟩)
    | ⟨[], .failed reason⟩ => (.failed (.io reason), ⟨decoder, source, chunk, true⟩)
termination_by source.size
decreasing_by exact Source.size_after _ _ _ _

/-- Gives the next payload. After the end or a fault there is nothing any more. -/
def next (r : Reader) : Received × Reader :=
  if r.finished then (.ended false, r) else advance r.decoder r.source r.chunk

theorem advance_remaining {decoder : Decoder} {source : Source} {chunk : Nat} {r : Reader}
    {payload : List UInt8} (h : advance decoder source chunk = (.payload payload, r)) :
    r.remaining < decoder.unread.length + source.bytes.length := by
  fun_induction advance decoder source chunk with
  | case1 d source p d' hn =>
    have := Decoder.next_unread_length hn
    simp only [Prod.mk.injEq] at h
    rw [← h.2]
    simp only [remaining]
    omega
  | case2 => simp at h
  | case3 d d' hn piece pieces ending ih =>
    have h1 := ih h
    have h2 := Decoder.next_waiting_length hn
    have h3 := Source.length_bytes_after chunk piece pieces ending
    have h4 := Decoder.length_unread_feed d' (piece.take (max 1 chunk))
    omega
  | case4 => simp at h
  | case5 => simp at h
  | case6 => simp at h

/-- A payload uses up at least one byte. -/
theorem next_remaining {r r' : Reader} {payload : List UInt8}
    (h : r.next = (.payload payload, r')) : r'.remaining < r.remaining := by
  unfold next at h
  split at h
  · simp at h
  · exact advance_remaining h

/-- The reader with more bytes in its source. -/
def push (r : Reader) (bytes : List UInt8) : Reader :=
  { r with source := r.source.push bytes }

/-- The reader with its source's ending decided. -/
def close (r : Reader) (ending : Ending) : Reader :=
  { r with source := { r.source with ending } }

end Reader

end PeerRpc.Frame
