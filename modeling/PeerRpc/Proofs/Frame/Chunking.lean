import PeerRpc.Proofs.Frame.Unread

/-!
# Bytes that arrive in pieces

Bytes reach a decoder by *moves*: some of them are fed to it, or it is asked for the next payload.
At the end it is asked until it has nothing more to give, and the first fault ends everything
(`Decoder.deliver`). `frames` says what should come of the bytes when they are looked at all at once.

* `deliver_eq_frames`: unless a line is complained about for its length, moves give what `frames`
  says about all the bytes they feed.
* `deliver_eq_of_fed_eq`: hence how the bytes are cut does not matter, and neither does the removal
  of used bytes from the buffer.
-/

namespace PeerRpc.Frame

/-- Something done with a decoder while bytes arrive. -/
inductive Move where
  | feed (bytes : List UInt8)
  /-- Bytes are put behind those in its buffer, from which nothing is removed. -/
  | append (bytes : List UInt8)
  /-- It is asked for the next payload. -/
  | ask

namespace Move

/-- The bytes that some moves feed. -/
def fed : List Move → List UInt8
  | [] => []
  | feed bytes :: moves => bytes ++ fed moves
  | append bytes :: moves => bytes ++ fed moves
  | ask :: moves => fed moves

/-- The same move, but with nothing removed from the buffer. -/
def plain : Move → Move
  | feed bytes => append bytes
  | other => other

end Move

/-- What has come out of a decoder. -/
structure Delivery where
  /-- The payloads, the first one first. -/
  payloads : List (List UInt8) := []
  /-- The fault that ended it, if there was one. -/
  fault : Option Fault := none
  /-- The bytes that were not used. -/
  unread : List UInt8 := []

/-- What came out, after one more payload. -/
def Delivery.after (payload : List UInt8) (o : Delivery) : Delivery :=
  { o with payloads := payload :: o.payloads }

@[simp] theorem Delivery.fault_after (payload : List UInt8) (o : Delivery) :
    (o.after payload).fault = o.fault := rfl

namespace Decoder

/-- Asks for payloads until there are no more. -/
def exhaust (d : Decoder) : Delivery :=
  match h : d.next with
  | (.ok (some payload), d') =>
    have := next_unread_length h
    (exhaust d').after payload
  | (.ok none, d') => { unread := d'.unread }
  | (.error fault, d') => { fault := some fault, unread := d'.unread }
termination_by d.unread.length

/-- The decoder with more bytes, with nothing removed from its buffer. -/
def append (d : Decoder) (bytes : List UInt8) : Decoder :=
  { d with buffer := d.buffer ++ bytes.toArray }

/-- Makes the moves one after the other, then asks for payloads until there are no more. The first
fault ends everything. -/
def deliver : List Move → Decoder → Delivery
  | [], d => d.exhaust
  | .feed bytes :: moves, d => deliver moves (d.feed bytes)
  | .append bytes :: moves, d => deliver moves (d.append bytes)
  | .ask :: moves, d =>
    match d.next with
    | (.ok (some payload), d') => (deliver moves d').after payload
    | (.ok none, d') => deliver moves d'
    | (.error fault, d') => { fault := some fault, unread := d'.unread }

end Decoder

/-! ## All bytes at once -/

theorem front_frame_length {limit : Nat} {input payload rest : List UInt8}
    (h : front limit input = .frame payload rest) : rest.length < input.length := by
  let d : Decoder := ⟨input.toArray, 0, limit⟩
  have hd : d.unread = input := by simp [d, Decoder.unread]
  obtain ⟨d', hn, rfl, -, -⟩ := Decoder.next_of_front_frame (d := d) (hd ▸ h)
  exact hd ▸ Decoder.next_unread_length hn

/-- What some bytes hold: the payloads of the frames at their front, and what follows these. -/
def frames (limit : Nat) (input : List UInt8) : Delivery :=
  match h : front limit input with
  | .waiting left => { unread := left }
  | .frame payload rest =>
    have := front_frame_length h
    (frames limit rest).after payload
  | .broken fault => { fault := some fault }
termination_by input.length

theorem frames_of_waiting {limit : Nat} {input left : List UInt8}
    (h : front limit input = .waiting left) : frames limit input = { unread := left } := by
  rw [frames.eq_def]
  split <;> rw [h] at * <;> simp_all

theorem frames_of_frame {limit : Nat} {input payload rest : List UInt8}
    (h : front limit input = .frame payload rest) :
    frames limit input = (frames limit rest).after payload := by
  rw [frames.eq_def]
  split <;> simp_all

theorem frames_of_broken {limit : Nat} {input : List UInt8} {fault : Fault}
    (h : front limit input = .broken fault) : frames limit input = { fault := some fault } := by
  rw [frames.eq_def]
  split <;> simp_all

theorem frames_congr {limit : Nat} {a b : List UInt8} (h : front limit a = front limit b) :
    frames limit a = frames limit b := by
  rcases hb : front limit b with left | ⟨payload, rest⟩ | fault
  · rw [frames_of_waiting hb, frames_of_waiting (h.trans hb)]
  · rw [frames_of_frame hb, frames_of_frame (h.trans hb)]
  · rw [frames_of_broken hb, frames_of_broken (h.trans hb)]

/-! ## Moves -/

namespace Decoder

variable {d : Decoder}

@[simp] theorem limit_append (d : Decoder) (bytes : List UInt8) :
    (d.append bytes).limit = d.limit := rfl

theorem unread_append (hd : d.Sound) (bytes : List UInt8) :
    (d.append bytes).unread = d.unread ++ bytes := by
  have hle : d.used ≤ d.buffer.toList.length := hd
  simp [append, unread, List.drop_append_of_le_length hle]

theorem sound_append (hd : d.Sound) (bytes : List UInt8) : (d.append bytes).Sound := by
  unfold Sound append at *
  simp only [Array.size_append]
  omega

theorem deliver_ask_of_none {d' : Decoder} (h : d.next = (.ok none, d')) (moves : List Move) :
    d.deliver (.ask :: moves) = d'.deliver moves := by
  simp [deliver, h]

theorem deliver_ask_of_some {d' : Decoder} {payload : List UInt8}
    (h : d.next = (.ok (some payload), d')) (moves : List Move) :
    d.deliver (.ask :: moves) = (d'.deliver moves).after payload := by
  simp [deliver, h]

theorem deliver_ask_of_error {d' : Decoder} {fault : Fault} (h : d.next = (.error fault, d'))
    (moves : List Move) :
    d.deliver (.ask :: moves) = { fault := some fault, unread := d'.unread } := by
  simp [deliver, h]

theorem exhaust_eq_frames (hd : d.Sound) : d.exhaust = frames d.limit d.unread := by
  fun_induction exhaust d with
  | case1 d payload d' hnext hlt ih =>
    obtain ⟨hfront, hl, hd'⟩ := front_of_next_some hnext
    rw [ih hd', frames_of_frame hfront, hl]
  | case2 d d' hnext =>
    obtain ⟨hfront, -⟩ := front_of_next_none hd hnext
    rw [frames_of_waiting hfront]
  | case3 d fault d' hnext =>
    obtain ⟨hfront, hunread⟩ := front_of_next_error hnext
    rw [frames_of_broken hfront, hunread]

/-- Unless a line is complained about for its length, what comes out depends on the bytes alone. -/
theorem deliver_eq_frames {moves : List Move} (hd : d.Sound)
    (hf : (d.deliver moves).fault ≠ some (.malformed .lineTooLong)) :
    d.deliver moves = frames d.limit (d.unread ++ Move.fed moves) := by
  induction moves generalizing d with
  | nil => rw [deliver, exhaust_eq_frames hd, Move.fed, List.append_nil]
  | cons move moves ih =>
    cases move with
    | feed bytes =>
      rw [deliver] at hf ⊢
      rw [ih (sound_feed hd bytes) hf, limit_feed, unread_feed hd, Move.fed, List.append_assoc]
    | append bytes =>
      rw [deliver] at hf ⊢
      rw [ih (sound_append hd bytes) hf, limit_append, unread_append hd, Move.fed,
        List.append_assoc]
    | ask =>
      rw [Move.fed]
      rcases hw : front d.limit d.unread with left | ⟨payload, rest⟩ | fault
      · obtain ⟨d', hnext, rfl, hl, hd'⟩ := next_of_front_waiting hd hw
        rw [deliver_ask_of_none hnext] at hf ⊢
        rw [ih hd' hf, hl]
        exact frames_congr (front_append_of_waiting hw _).symm
      · obtain ⟨d', hnext, rfl, hl, hd'⟩ := next_of_front_frame hw
        rw [deliver_ask_of_some hnext] at hf ⊢
        rw [ih hd' hf, hl, frames_of_frame (front_append_of_frame hw _)]
      · rw [deliver_ask_of_error (next_of_front_broken hw)] at hf ⊢
        rw [frames_of_broken (front_append_of_broken hw (by simpa using hf) _)]
        rfl

/-- What comes out of a decoder does not depend on the used bytes that are still in its buffer. -/
theorem deliver_plain {e : Decoder} (hd : d.Sound) (he : e.Sound) (hl : e.limit = d.limit)
    (hu : e.unread = d.unread) (moves : List Move) :
    e.deliver (moves.map Move.plain) = d.deliver moves := by
  induction moves generalizing d e with
  | nil => rw [List.map_nil, deliver, deliver, exhaust_eq_frames hd, exhaust_eq_frames he, hl, hu]
  | cons move moves ih =>
    rw [List.map_cons]
    cases move with
    | feed bytes =>
      rw [Move.plain, deliver, deliver]
      refine ih (sound_feed hd bytes) (sound_append he bytes) ?_ ?_
      · rw [limit_append, limit_feed, hl]
      · rw [unread_append he, unread_feed hd, hu]
    | append bytes =>
      rw [Move.plain, deliver, deliver]
      · refine ih (sound_append hd bytes) (sound_append he bytes) hl ?_
        rw [unread_append he, unread_append hd, hu]
      · simp
    | ask =>
      have hplain : Move.plain .ask = .ask := rfl
      rw [hplain]
      rcases hw : front d.limit d.unread with left | ⟨payload, rest⟩ | fault
      · obtain ⟨d', hdn, hdu, hdl, hd'⟩ := next_of_front_waiting hd hw
        rw [← hl, ← hu] at hw
        obtain ⟨e', hen, heu, hel, he'⟩ := next_of_front_waiting he hw
        rw [deliver_ask_of_none hdn, deliver_ask_of_none hen]
        exact ih hd' he' (by rw [hel, hdl, hl]) (by rw [heu, hdu])
      · obtain ⟨d', hdn, hdu, hdl, hd'⟩ := next_of_front_frame hw
        rw [← hl, ← hu] at hw
        obtain ⟨e', hen, heu, hel, he'⟩ := next_of_front_frame hw
        rw [deliver_ask_of_some hdn, deliver_ask_of_some hen,
          ih hd' he' (by rw [hel, hdl, hl]) (by rw [heu, hdu])]
      · rw [deliver_ask_of_error (next_of_front_broken hw)]
        rw [← hl, ← hu] at hw
        rw [deliver_ask_of_error (next_of_front_broken hw)]
        rfl

end Decoder

/-- However bytes are cut and whenever a new decoder is asked in between, the same payloads come
out of it, the same fault ends it, and the same bytes are left, provided that neither way of
cutting makes it complain about the length of a line. The removal of used bytes from the buffer
changes nothing at all. -/
theorem deliver_eq_of_fed_eq (limit : Nat) (a b : List Move) (hab : Move.fed a = Move.fed b)
    (ha : ((Decoder.empty limit).deliver a).fault ≠ some (.malformed .lineTooLong))
    (hb : ((Decoder.empty limit).deliver b).fault ≠ some (.malformed .lineTooLong)) :
    (Decoder.empty limit).deliver a = (Decoder.empty limit).deliver b ∧
      ∀ moves, (Decoder.empty limit).deliver (moves.map Move.plain) =
        (Decoder.empty limit).deliver moves := by
  have hs := Decoder.sound_empty limit
  constructor
  · rw [Decoder.deliver_eq_frames hs ha, Decoder.deliver_eq_frames hs hb, hab]
  · exact Decoder.deliver_plain hs hs rfl rfl

/-- An empty line, a cut between the carriage return and the line feed of a header, and the
beginning of another frame that is left over. -/
theorem deliver_cut_in_line_end :
    ((Decoder.empty 9).deliver
      [.feed (Text.utf8 "\r\nContent-Length: 2\r"), .ask, .feed (Text.utf8 "\n\r\n{}Con")]) =
      (Decoder.empty 9).deliver [.feed (Text.utf8 "\r\nContent-Length: 2\r\n\r\n{}Con")] ∧
    ((Decoder.empty 9).deliver
      [.feed (Text.utf8 "\r\nContent-Length: 2\r\n\r\n{}Con")]).payloads =
      [Text.utf8 "{}"] := by
  have hcut : ((Decoder.empty 9).deliver [.feed (Text.utf8 "\r\nContent-Length: 2\r"), .ask,
      .feed (Text.utf8 "\n\r\n{}Con")]).fault.isNone := by decide +kernel
  have hwhole : ((Decoder.empty 9).deliver
      [.feed (Text.utf8 "\r\nContent-Length: 2\r\n\r\n{}Con")]).fault.isNone := by decide +kernel
  refine ⟨(deliver_eq_of_fed_eq 9 _ _ (by decide +kernel) ?_ ?_).1, by decide +kernel⟩
  · rw [Option.isNone_iff_eq_none.1 hcut]
    simp
  · rw [Option.isNone_iff_eq_none.1 hwhole]
    simp

end PeerRpc.Frame
