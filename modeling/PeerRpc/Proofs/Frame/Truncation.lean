import PeerRpc.Frame.Reader
import PeerRpc.Proofs.Frame.Encoding

/-!
# Reading a stream that is cut off

A reader takes bytes from its source piece by piece. What it gives depends only on the bytes ahead
of it, those its decoder has not used and those it has not read yet: `next_of_whole` for a whole
frame ahead and `next_of_fragment` for less than that.

* `answers_of_cut_stream`: whatever the pieces and whenever a reader is asked, of a stream that is
  cut off it gives exactly the payloads whose frames are whole, and then the end for ever.
-/

namespace PeerRpc.Frame

namespace Source

theorem bytes_after (n : Nat) (piece : List UInt8) (pieces : List (List UInt8)) (ending : Ending) :
    piece.take (max 1 n) ++ bytes ⟨after n piece pieces, ending⟩ =
      bytes ⟨piece :: pieces, ending⟩ := by
  have hsplit := List.take_append_drop (max 1 n) piece
  unfold after bytes
  split
  · rename_i hnil
    rw [hnil, List.append_nil] at hsplit
    rw [List.flatten_cons, hsplit]
  · rw [List.flatten_cons, List.flatten_cons, ← List.append_assoc, hsplit]

@[simp] theorem bytes_push (s : Source) (bytes : List UInt8) :
    (s.push bytes).bytes = s.bytes ++ bytes := by
  unfold push Source.bytes
  split_ifs with h
  · rw [List.isEmpty_iff.1 h, List.append_nil]
  · simp

@[simp] theorem ending_push (s : Source) (bytes : List UInt8) :
    (s.push bytes).ending = s.ending := by
  unfold push
  split_ifs <;> rfl

end Source

namespace Reader

/-- The bytes that have not been used yet, read or not. -/
def ahead (r : Reader) : List UInt8 :=
  r.decoder.unread ++ r.source.bytes

/-- The reader has not reported an end or a fault, and its decoder is sound and has the given
limit. -/
structure Ready (limit : Nat) (r : Reader) : Prop where
  sound : r.decoder.Sound
  limit_eq : r.decoder.limit = limit
  unfinished : r.finished = false

theorem ready_start (limit chunk : Nat) : (start limit chunk).Ready limit :=
  ⟨Decoder.sound_empty limit, rfl, rfl⟩

@[simp] theorem ahead_start (limit chunk : Nat) : (start limit chunk).ahead = [] := rfl

@[simp] theorem ahead_push (r : Reader) (bytes : List UInt8) :
    (r.push bytes).ahead = r.ahead ++ bytes := by
  unfold ahead push
  rw [Source.bytes_push, List.append_assoc]

@[simp] theorem ahead_close (r : Reader) (ending : Ending) : (r.close ending).ahead = r.ahead := rfl

variable {limit : Nat} {r : Reader}

theorem Ready.push (h : r.Ready limit) (bytes : List UInt8) : (r.push bytes).Ready limit :=
  ⟨h.sound, h.limit_eq, h.unfinished⟩

theorem Ready.close (h : r.Ready limit) (ending : Ending) : (r.close ending).Ready limit :=
  ⟨h.sound, h.limit_eq, h.unfinished⟩

/-- What a reader gives that has used up all whole frames, by what its source ends in. -/
def verdict (left : List UInt8) : Ending → Received
  | .undecided => .waiting
  | .ended => .ended (left ≠ [])
  | .failed reason => .failed (.io reason)

variable {d : Decoder} {source : Source} {chunk : Nat}

theorem advance_of_frame {d' : Decoder} {payload : List UInt8}
    (h : d.next = (.ok (some payload), d')) :
    advance d source chunk = (.payload payload, ⟨d', source, chunk, false⟩) := by
  rw [advance.eq_def, h]

theorem advance_of_none {d' : Decoder} {piece : List UInt8} {pieces : List (List UInt8)}
    {ending : Ending} (h : d.next = (.ok none, d')) :
    advance d ⟨piece :: pieces, ending⟩ chunk =
      advance (d'.feed (piece.take (max 1 chunk))) ⟨Source.after chunk piece pieces, ending⟩
        chunk := by
  rw [advance.eq_def, h]

theorem advance_of_none_nil {d' : Decoder} {ending : Ending} (h : d.next = (.ok none, d')) :
    advance d ⟨[], ending⟩ chunk =
      (verdict d'.unread ending, ⟨d', ⟨[], ending⟩, chunk, ending ≠ .undecided⟩) := by
  rw [advance.eq_def, h]
  have hunread : d'.hasUnread = decide (d'.unread ≠ []) := by
    rw [Bool.eq_iff_iff, Decoder.hasUnread_iff, decide_eq_true_iff]
  cases ending with
  | undecided => rfl
  | ended => simp [verdict, hunread]
  | failed reason => rfl

theorem advance_of_error {d' : Decoder} {fault : Fault} (h : d.next = (.error fault, d')) :
    advance d source chunk = (.failed (.frame fault), ⟨d', source, chunk, true⟩) := by
  rw [advance.eq_def, h]

/-- However many reads it takes, a reader finds what is at the front of all the bytes ahead, unless a
line is complained about for its length on the way. -/
theorem advance_of_front (source : Source) (chunk : Nat) (hd : d.Sound)
    (h : ∀ part, part <+: source.bytes →
      front d.limit (d.unread ++ part) ≠ .broken (.malformed .lineTooLong)) :
    match front d.limit (d.unread ++ source.bytes) with
    | .frame payload rest => ∃ r, advance d source chunk = (.payload payload, r) ∧ r.ahead = rest ∧
        r.Ready d.limit ∧ r.source.ending = source.ending
    | .waiting left => ∃ d', advance d source chunk = (verdict left source.ending,
        ⟨d', ⟨[], source.ending⟩, chunk, source.ending ≠ .undecided⟩) ∧
        d'.unread = left ∧ d'.limit = d.limit ∧ d'.Sound
    | .broken fault => ∃ r, advance d source chunk = (.failed (.frame fault), r) ∧
        r.finished = true := by
  induction hn : source.size using Nat.strong_induction_on generalizing d source with
  | _ n ih =>
    subst hn
    rcases hf : front d.limit d.unread with left | ⟨payload, rest⟩ | fault
    · obtain ⟨d', hnext, rfl, hl, hd'⟩ := Decoder.next_of_front_waiting hd hf
      obtain ⟨pieces, ending⟩ := source
      cases pieces with
      | nil =>
        rw [show Source.bytes ⟨[], ending⟩ = [] from rfl, List.append_nil, hf]
        exact ⟨d', advance_of_none_nil hnext, rfl, hl, hd'⟩
      | cons piece pieces =>
        rw [advance_of_none hnext]
        have hfeed := Decoder.sound_feed hd' (piece.take (max 1 chunk))
        have := @ih _ (Source.size_after chunk piece pieces ending) _
          ⟨Source.after chunk piece pieces, ending⟩ hfeed
        simp only [Decoder.limit_feed, hl, Decoder.unread_feed hd', List.append_assoc,
          Source.bytes_after] at this
        rw [front_append_of_waiting hf]
        refine this (fun part hpart => ?_) trivial
        rw [← front_append_of_waiting hf]
        apply h
        rw [← Source.bytes_after]
        exact (List.prefix_append_right_inj _).2 hpart
    · obtain ⟨d', hnext, rfl, hl, hd'⟩ := Decoder.next_of_front_frame hf
      rw [front_append_of_frame hf]
      exact ⟨_, advance_of_frame hnext, rfl, ⟨hd', hl, rfl⟩, rfl⟩
    · have hne : fault ≠ .malformed .lineTooLong := by
        rintro rfl
        exact h [] List.nil_prefix (by rw [List.append_nil, hf])
      rw [front_append_of_broken hf hne]
      exact ⟨_, advance_of_error (Decoder.next_of_front_broken hf), rfl⟩

/-- A whole frame ahead is found, however many reads it takes. -/
theorem advance_of_whole {payload rest : List UInt8} (chunk : Nat) (hd : d.Sound)
    (hl : d.limit < UInt64.size) (hp : payload.length ≤ d.limit)
    (h : d.unread ++ source.bytes = encode payload ++ rest) :
    ∃ r, advance d source chunk = (.payload payload, r) ∧ r.ahead = rest ∧ r.Ready d.limit ∧
      r.source.ending = source.ending := by
  have hfront := advance_of_front source chunk hd fun part hpart hbroken => by
    have hprefix : d.unread ++ part <+: encode payload ++ rest :=
      h ▸ (List.prefix_append_right_inj _).2 hpart
    rcases whole_or_fragment hp hprefix with ⟨more, hmore, -⟩ | hpart
    · rw [hmore, front_encode_append hp (hp.trans_lt hl)] at hbroken
      cases hbroken
    · rw [front_of_fragment hl hpart] at hbroken
      cases hbroken
  rwa [h, front_encode_append hp (hp.trans_lt hl)] at hfront

/-- Less than a frame ahead is left as it is. -/
theorem advance_of_fragment (chunk : Nat) (hd : d.Sound) (hl : d.limit < UInt64.size)
    (h : Fragment d.limit (d.unread ++ source.bytes)) :
    ∃ d', advance d source chunk =
        (verdict (d.unread ++ source.bytes) source.ending,
          ⟨d', ⟨[], source.ending⟩, chunk, source.ending ≠ .undecided⟩) ∧
      d'.unread = d.unread ++ source.bytes ∧ d'.limit = d.limit ∧ d'.Sound := by
  have hfront := advance_of_front source chunk hd fun part hpart hbroken => by
    rw [front_of_fragment hl (h.of_isPrefix ((List.prefix_append_right_inj _).2 hpart))] at hbroken
    cases hbroken
  rwa [front_of_fragment hl h] at hfront

/-- A reader finds the whole frame ahead of it. -/
theorem next_of_whole {payload rest : List UInt8} (hr : r.Ready limit) (hl : limit < UInt64.size)
    (hp : payload.length ≤ limit) (h : r.ahead = encode payload ++ rest) :
    ∃ r', r.next = (.payload payload, r') ∧ r'.ahead = rest ∧ r'.Ready limit ∧
      r'.source.ending = r.source.ending := by
  obtain ⟨hd, rfl, hf⟩ := hr
  unfold next
  rw [hf]
  exact advance_of_whole r.chunk hd hl hp h

/-- A reader with less than a frame ahead gives what its source's ending tells. -/
theorem next_of_fragment (hr : r.Ready limit) (hl : limit < UInt64.size) (h : Fragment limit r.ahead) :
    ∃ r', r.next = (verdict r.ahead r.source.ending, r') ∧ r'.ahead = r.ahead ∧
      r'.source.ending = r.source.ending ∧
      (r.source.ending = .undecided → r'.Ready limit) ∧
      (r.source.ending ≠ .undecided → r'.finished = true) := by
  obtain ⟨hd, rfl, hf⟩ := hr
  obtain ⟨d', hnext, hu, hl', hd'⟩ := advance_of_fragment r.chunk hd hl h
  refine ⟨⟨d', ⟨[], r.source.ending⟩, r.chunk, r.source.ending ≠ .undecided⟩, ?_, ?_, rfl, ?_, ?_⟩
  · rw [next, hf]
    exact hnext
  · exact (List.append_nil _).trans hu
  · exact fun he => ⟨hd', hl', by simp [he]⟩
  · exact fun he => by simp [he]

theorem next_of_finished (h : r.finished = true) : r.next = (.ended false, r) := by
  rw [next, if_pos h]

end Reader

/-! ## Schedules -/

/-- Something that happens to a reader whose source is open. -/
inductive Turn where
  | arrive (bytes : List UInt8)
  /-- The reader is asked for the next payload. -/
  | ask

namespace Turn

/-- The bytes that arrive in some turns. -/
def arrived : List Turn → List UInt8
  | [] => []
  | arrive bytes :: turns => bytes ++ arrived turns
  | ask :: turns => arrived turns

end Turn

namespace Reader

/-- Takes the turns one after the other. Gives the answers, and the reader afterwards. -/
def play : List Turn → Reader → List Received × Reader
  | [], r => ([], r)
  | .arrive bytes :: turns, r => play turns (r.push bytes)
  | .ask :: turns, r =>
    let (answer, r) := r.next
    let (answers, r) := play turns r
    (answer :: answers, r)

/-- Asks a number of times. -/
def asks : Nat → Reader → List Received
  | 0, _ => []
  | n + 1, r => r.next.1 :: asks n r.next.2

end Reader

/-- Whether there is no payload yet. -/
def Received.isWaiting : Received → Bool
  | .waiting => true
  | _ => false

namespace Reader

variable {limit : Nat} {r : Reader}

/-- While the source is open, the answers are payloads of the stream, one after the other, and what
is left for later is the stream of the others. -/
theorem play_stream {turns : List Turn} {payloads : List (List UInt8)} {left : List UInt8}
    (hl : limit < UInt64.size) (hp : ∀ payload ∈ payloads, payload.length ≤ limit)
    (hleft : Fragment limit left) (hr : r.Ready limit) (he : r.source.ending = .undecided)
    (h : r.ahead ++ Turn.arrived turns = stream payloads ++ left) :
    ∃ early late, payloads = early ++ late ∧
      (play turns r).1.filter (!·.isWaiting) = early.map .payload ∧
      (play turns r).2.Ready limit ∧ (play turns r).2.ahead = stream late ++ left := by
  induction turns generalizing r payloads with
  | nil => exact ⟨[], payloads, rfl, rfl, hr, by simpa [Turn.arrived, play] using h⟩
  | cons turn turns ih =>
    cases turn with
    | arrive bytes =>
      refine ih hp (hr.push bytes) ?_ ?_
      · exact (Source.ending_push r.source bytes).trans he
      · rwa [ahead_push, List.append_assoc]
    | ask =>
      rw [Turn.arrived] at h
      have hfragment : Fragment limit r.ahead → ∃ early late, payloads = early ++ late ∧
          (play (.ask :: turns) r).1.filter (!·.isWaiting) = early.map .payload ∧
          (play (.ask :: turns) r).2.Ready limit ∧
          (play (.ask :: turns) r).2.ahead = stream late ++ left := by
        intro hf
        obtain ⟨r', hnext, hahead, hending, hready, -⟩ := next_of_fragment hr hl hf
        rw [he] at hnext hending hready
        rw [play, hnext]
        exact ih hp (hready rfl) hending (by rw [hahead, h])
      cases payloads with
      | nil => exact hfragment (hleft.of_isPrefix ⟨_, h⟩)
      | cons payload payloads =>
        have hpayload := hp payload List.mem_cons_self
        rw [stream_cons, List.append_assoc] at h
        rcases whole_or_fragment hpayload ⟨_, h⟩ with ⟨more, hmore, -⟩ | hf
        · obtain ⟨r', hnext, hahead, hready, hending⟩ := next_of_whole hr hl hpayload hmore
          rw [hmore, List.append_assoc] at h
          obtain ⟨early, late, rfl, hanswers, hrest⟩ :=
            ih (fun p hp' => hp p (List.mem_cons_of_mem _ hp')) hready (hending.trans he)
              (by rw [hahead]; exact List.append_cancel_left h)
          refine ⟨payload :: early, late, rfl, ?_, ?_⟩
          · rw [play, hnext]
            exact congrArg (Received.payload payload :: ·) hanswers
          · rw [play, hnext]
            exact hrest
        · exact hfragment hf

theorem asks_of_finished (h : r.finished = true) (n : Nat) :
    r.asks n = List.replicate n (.ended false) := by
  induction n with
  | zero => rfl
  | succ n ih => rw [asks, next_of_finished h, ih, List.replicate_succ]

/-- Once the source has ended, the answers are the payloads of the stream ahead, and then the end
for ever. -/
theorem asks_stream {payloads : List (List UInt8)} {left : List UInt8}
    (hl : limit < UInt64.size) (hp : ∀ payload ∈ payloads, payload.length ≤ limit)
    (hleft : Fragment limit left) (hr : r.Ready limit) (he : r.source.ending = .ended)
    (h : r.ahead = stream payloads ++ left) {n m : Nat} (hnm : n ≤ m) :
    r.asks n =
      (payloads.map Received.payload ++
        Received.ended (left ≠ []) :: List.replicate m (Received.ended false)).take n := by
  induction n generalizing r payloads with
  | zero => rfl
  | succ n ih =>
    have hnm' : n ≤ m := by omega
    cases payloads with
    | nil =>
      obtain ⟨r', hnext, -, -, -, hfinished⟩ := next_of_fragment hr hl (h ▸ hleft)
      rw [asks, hnext, asks_of_finished (hfinished (by simp [he])), he, h, List.map_nil,
        List.nil_append, List.take_succ_cons, List.take_replicate, Nat.min_eq_left hnm']
      rfl
    | cons payload payloads =>
      rw [stream_cons, List.append_assoc] at h
      obtain ⟨r', hnext, hahead, hready, hending⟩ :=
        next_of_whole hr hl (hp payload List.mem_cons_self) h
      rw [asks, hnext, ih (fun p hp' => hp p (List.mem_cons_of_mem _ hp')) hready
        (hending.trans he) hahead hnm', List.map_cons, List.cons_append, List.take_succ_cons]

end Reader

/-- A stream of frames is cut off anywhere and arrives in any pieces, while a reader with any size of
reads is asked now and then. Before the source ends, the reader gives payloads and otherwise tells
to wait; after that, it gives the other payloads whose frames are whole, then that the source has
ended, inside a frame or not, and then the end whenever it is asked. -/
theorem answers_of_cut_stream (limit chunk k n : Nat) (payloads : List (List UInt8))
    (turns : List Turn) (hl : limit < UInt64.size)
    (hp : ∀ payload ∈ payloads, payload.length ≤ limit)
    (hk : Turn.arrived turns = (stream payloads).take k) :
    ∃ early late, whole k payloads = early ++ late ∧
      ((Reader.start limit chunk).play turns).1.filter (!·.isWaiting) =
        early.map Received.payload ∧
      (((Reader.start limit chunk).play turns).2.close .ended).asks n =
        (late.map Received.payload ++
          Received.ended (stream (whole k payloads) ≠ (stream payloads).take k) ::
            List.replicate n (Received.ended false)).take n := by
  obtain ⟨left, hcut, hleft⟩ := take_stream hp k
  have hwhole : ∀ payload ∈ whole k payloads, payload.length ≤ limit :=
    fun payload h => hp payload ((whole_isPrefix k payloads).subset h)
  obtain ⟨early, late, he, hearly, hready, hahead⟩ :=
    Reader.play_stream hl hwhole hleft (Reader.ready_start limit chunk) rfl
      (by rw [Reader.ahead_start, List.nil_append, hk, hcut])
  refine ⟨early, late, he, hearly, ?_⟩
  have hlate : ∀ payload ∈ late, payload.length ≤ limit :=
    fun payload h => hwhole payload (he ▸ List.mem_append_right _ h)
  rw [Reader.asks_stream hl hlate hleft (hready.close .ended) rfl hahead le_rfl, hcut]
  simp

/-- Two frames, the bytes of which stop inside the second one. -/
theorem answers_of_two_frames :
    whole 30 [[13, 10], [123]] = [[13, 10]] ∧
    ∃ early late, whole 30 [[13, 10], [123]] = early ++ late ∧
      ((Reader.start 9 3).play [.arrive ((stream [[13, 10], [123]]).take 20), .ask,
          .arrive (((stream [[13, 10], [123]]).take 30).drop 20)]).1.filter (!·.isWaiting) =
        early.map Received.payload ∧
      (((Reader.start 9 3).play [.arrive ((stream [[13, 10], [123]]).take 20), .ask,
          .arrive (((stream [[13, 10], [123]]).take 30).drop 20)]).2.close .ended).asks 3 =
        (late.map Received.payload ++
          Received.ended (stream (whole 30 [[13, 10], [123]]) ≠
              (stream [[13, 10], [123]]).take 30) ::
            List.replicate 3 (Received.ended false)).take 3 :=
  ⟨by decide +kernel,
    answers_of_cut_stream 9 3 30 3 [[13, 10], [123]] _ (by decide) (by decide) (by decide +kernel)⟩

end PeerRpc.Frame
