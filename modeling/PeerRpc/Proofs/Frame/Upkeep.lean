import PeerRpc.Proofs.Frame.Checked
import PeerRpc.Proofs.Frame.Grammar
import PeerRpc.Proofs.Frame.Hidden

/-!
# Calls of a decoder

A decoder is used by calls, in any order: it is fed, asked for a payload or for all of them, asked
whether bytes are left, and cleared. Its read position, the removal of used bytes and the places in its
buffer should not be seen from outside, and should never lead outside of the buffer.

* `in_bounds_and_answers_from_unread`: whatever the calls are, a machine that checks its places
  (`Checked`) is never asked for one out of range, and the answers are those of a machine that has
  the unread bytes and nothing else (`answerUnread`).
-/

namespace PeerRpc.Frame

/-- Something that a decoder is asked to do. -/
inductive Call where
  | feed (bytes : List UInt8)
  | next
  | decode (bytes : List UInt8)
  | hasUnread
  | clear

/-- The bytes that a call brings. -/
def Call.bytes : Call → List UInt8
  | feed bytes => bytes
  | decode bytes => bytes
  | _ => []

/-- What comes of a call. -/
inductive Answer where
  | done
  | next (result : Except Fault (Option (List UInt8)))
  | decode (result : Except Fault (List (List UInt8)))
  | hasUnread (yes : Bool)

/-- Makes calls one after the other, where a machine answers each of them. -/
def run {σ : Type} (answer : σ → Call → Answer × σ) : List Call → σ → List Answer × σ
  | [], s => ([], s)
  | call :: calls, s =>
    let (a, s') := answer s call
    let (as, s'') := run answer calls s'
    (a :: as, s'')

/-- What a decoder answers to a call, and the decoder after it. -/
def Decoder.answer (d : Decoder) : Call → Answer × Decoder
  | .feed bytes => (.done, d.feed bytes)
  | .next => (.next d.next.1, d.next.2)
  | .decode bytes => (.decode (d.decode bytes).1, (d.decode bytes).2)
  | .hasUnread => (.hasUnread d.hasUnread, d)
  | .clear => (.done, d.clear)

/-- The answers of a machine that has the unread bytes and nothing else. -/
def answerUnread (limit : Nat) (unread : List UInt8) : Call → Answer × List UInt8
  | .feed bytes => (.done, unread ++ bytes)
  | .next =>
    match front limit unread with
    | .waiting left => (.next (.ok none), left)
    | .frame payload rest => (.next (.ok (some payload)), rest)
    | .broken fault => (.next (.error fault), [])
  | .decode bytes =>
    let all := frames limit (unread ++ bytes)
    match all.fault with
    | none => (.decode (.ok all.payloads), all.unread)
    | some fault => (.decode (.error fault), [])
  | .hasUnread => (.hasUnread !unread.isEmpty, unread)
  | .clear => (.done, [])

namespace Checked

/-- The same on a machine whose numbers have 64 bits, with so much room for the bytes. -/
def answer (room : UInt64) (d : Decoder) : Call → Checked (Answer × Decoder)
  | .feed bytes => return (.done, ← feed room d bytes)
  | .next => do
    let (result, d') ← next d
    return (.next result, d')
  | .decode bytes => do
    let (result, d') ← decode room d bytes
    return (.decode result, d')
  | .hasUnread => return (.hasUnread d.hasUnread, d)
  | .clear => return (.done, d.clear)

/-- Makes calls one after the other, until the machine stops. -/
def run (room : UInt64) : List Call → Decoder → Checked (List Answer × Decoder)
  | [], d => return ([], d)
  | call :: calls, d => do
    let (a, d') ← answer room d call
    let (as, d'') ← run room calls d'
    return (a :: as, d'')

end Checked

/-! ## One call -/

namespace Decoder

variable {d d' : Decoder} {limit : Nat} {fault : Fault}

theorem used_feed_lt (d : Decoder) (bytes : List UInt8) :
    (d.feed bytes).used < compactionThreshold := by
  unfold feed
  split_ifs with hmany
  · exact Nat.zero_lt_succ _
  · exact Nat.lt_of_not_le hmany

/-- A buffer holds little more than the bytes that are unread when it has been fed. -/
theorem size_feed_lt (hd : d.Sound) (bytes : List UInt8) :
    (d.feed bytes).buffer.size < compactionThreshold + (d.unread ++ bytes).length := by
  have hused := used_feed_lt d bytes
  have hle : (d.feed bytes).used ≤ (d.feed bytes).buffer.size := sound_feed hd bytes
  have hunread := length_unread (d.feed bytes)
  rw [unread_feed hd] at hunread
  omega

theorem next_of_fault (h : d.next = (.error fault, d')) : d' = empty d.limit := by
  have hclear := next_of_front_broken (front_of_next_error h).1
  exact congrArg Prod.snd (h.symm.trans hclear)

theorem drain_of_fault (h : d.drain = (.error fault, d')) : d' = empty d.limit := by
  fun_induction drain d with
  | case1 d payload e hnext hlt payloads e' hdrain ih =>
    rw [← (front_of_next_some hnext).2.1]
    obtain ⟨hpayloads, rfl⟩ := Prod.mk.inj h
    cases payloads with
    | error fault' =>
      cases hpayloads
      exact ih hdrain
    | ok payloads => cases hpayloads
  | case2 d e hnext => cases h
  | case3 d fault' e hnext =>
    cases h
    exact next_of_fault hnext

theorem decode_of_fault {bytes : List UInt8} (h : d.decode bytes = (.error fault, d')) :
    d' = empty d.limit := by
  have hempty := drain_of_fault h
  rwa [limit_feed] at hempty

/-- Each call keeps a decoder sound and is answered from its unread bytes. -/
theorem answer_eq (hd : d.Sound) (call : Call) :
    answerUnread d.limit d.unread call = ((d.answer call).1, (d.answer call).2.unread) ∧
      (d.answer call).2.limit = d.limit ∧ (d.answer call).2.Sound := by
  cases call with
  | feed bytes =>
    exact ⟨congrArg (Prod.mk _) (unread_feed hd bytes).symm, limit_feed d bytes,
      sound_feed hd bytes⟩
  | next =>
    unfold answerUnread answer
    dsimp only
    rcases hf : front d.limit d.unread with left | ⟨payload, rest⟩ | fault
    · obtain ⟨d', hnext, rfl, hl, hd'⟩ := next_of_front_waiting hd hf
      rw [hnext]
      exact ⟨rfl, hl, hd'⟩
    · obtain ⟨d', hnext, rfl, hl, hd'⟩ := next_of_front_frame hf
      rw [hnext]
      exact ⟨rfl, hl, hd'⟩
    · rw [next_of_front_broken hf]
      exact ⟨rfl, rfl, sound_empty _⟩
  | decode bytes =>
    obtain ⟨d', hdrain, hunread, hsound⟩ := drain_eq_frames (sound_feed hd bytes)
    rw [limit_feed, unread_feed hd] at hdrain hunread hsound
    have hdecode : d.decode bytes = _ := hdrain
    unfold answerUnread answer
    dsimp only
    cases hf : (frames d.limit (d.unread ++ bytes)).fault with
    | none =>
      rw [hf] at hdecode
      rw [hdecode, ← hunread]
      exact ⟨rfl, hsound hf⟩
    | some fault =>
      rw [hf] at hdecode
      rw [hdecode, decode_of_fault hdecode]
      exact ⟨rfl, rfl, sound_empty _⟩
  | hasUnread =>
    have hempty : d.hasUnread = !d.unread.isEmpty := by
      rw [Bool.eq_iff_iff, hasUnread_iff, Bool.not_eq_true', List.isEmpty_eq_false_iff]
    exact ⟨by rw [answer, hempty]; rfl, rfl, hd⟩
  | clear => exact ⟨rfl, rfl, sound_empty _⟩

end Decoder

/-- A machine that checks its places answers as the decoder does, as long as there is room. -/
theorem Checked.answer_eq {room : UInt64} {d : Decoder} (h : Kept room d) (call : Call) :
    (answer room d call = .ok (d.answer call) ∧ Kept room (d.answer call).2) ∨
      (answer room d call = .error .outOfRoom ∧
        room.toNat < compactionThreshold + (d.unread ++ call.bytes).length) := by
  have hfed : ∀ bytes, (feed room d bytes = .ok (d.feed bytes) ∧ Kept room (d.feed bytes)) ∨
      (feed room d bytes = .error .outOfRoom ∧
        room.toNat < compactionThreshold + (d.unread ++ bytes).length) := by
    intro bytes
    have hsize := Decoder.size_feed_lt h.sound bytes
    rw [feed_eq h.sound]
    split_ifs with hroom
    · exact .inl ⟨rfl, Decoder.sound_feed h.sound bytes, hroom⟩
    · exact .inr ⟨rfl, by omega⟩
  cases call with
  | feed bytes =>
    obtain ⟨hfeed, hkept⟩ | ⟨hfeed, hroom⟩ := hfed bytes
    · exact .inl ⟨by rw [answer, hfeed]; rfl, hkept⟩
    · exact .inr ⟨by rw [answer, hfeed]; rfl, hroom⟩
  | next => exact .inl ⟨by rw [answer, next_eq h]; rfl, h.next⟩
  | decode bytes =>
    obtain ⟨hfeed, hkept⟩ | ⟨hfeed, hroom⟩ := hfed bytes
    · refine .inl ⟨?_, hkept.drain⟩
      rw [answer, decode, hfeed]
      simp only [bind, Except.bind, drain_eq hkept]
      rfl
    · exact .inr ⟨by rw [answer, decode, hfeed]; rfl, hroom⟩
  | hasUnread => exact .inl ⟨rfl, h⟩
  | clear => exact .inl ⟨rfl, .clear room d⟩

/-! ## All calls -/

theorem Checked.run_eq {room : UInt64} {d : Decoder} (h : Kept room d) (calls : List Call) :
    run room calls d = .ok (Frame.run Decoder.answer calls d) ∨
      run room calls d = .error .outOfRoom ∧ ∃ early call late, calls = early ++ call :: late ∧
        room.toNat < compactionThreshold +
          ((Frame.run Decoder.answer early d).2.unread ++ call.bytes).length := by
  induction calls generalizing d with
  | nil => exact .inl rfl
  | cons call calls ih =>
    obtain ⟨hanswer, hkept⟩ | ⟨hanswer, hroom⟩ := answer_eq h call
    · obtain hrun | ⟨hrun, early, call', late, rfl, hroom⟩ := ih hkept
      · exact .inl (by rw [run, hanswer]; simp only [bind, Except.bind, hrun]; rfl)
      · refine .inr ⟨?_, call :: early, call', late, rfl, hroom⟩
        rw [run, hanswer]
        simp only [bind, Except.bind, hrun]
    · exact .inr ⟨by rw [run, hanswer]; rfl, [], call, calls, rfl, hroom⟩

theorem run_eq {d : Decoder} (hd : d.Sound) (calls : List Call) :
    run (answerUnread d.limit) calls d.unread =
        ((run Decoder.answer calls d).1, (run Decoder.answer calls d).2.unread) ∧
      (run Decoder.answer calls d).2.limit = d.limit ∧ (run Decoder.answer calls d).2.Sound := by
  induction calls generalizing d with
  | nil => exact ⟨rfl, rfl, hd⟩
  | cons call calls ih =>
    obtain ⟨hanswer, hl, hsound⟩ := Decoder.answer_eq hd call
    obtain ⟨hrun, hl', hsound'⟩ := ih hsound
    rw [hl] at hrun hl'
    refine ⟨?_, hl', hsound'⟩
    rw [run, hanswer]
    dsimp only
    rw [hrun]
    rfl

/-- Each payload takes bytes away, so that there are no more payloads than bytes. -/
theorem length_le_of_asked {d d' : Decoder} {payloads : List (List UInt8)}
    (h : run Decoder.answer (List.replicate payloads.length .next) d =
      (payloads.map fun payload => .next (.ok (some payload)), d')) :
    payloads.length + d'.unread.length ≤ d.unread.length := by
  induction payloads generalizing d with
  | nil =>
    cases h
    exact (Nat.zero_add _).le
  | cons payload payloads ih =>
    rw [List.length_cons, List.replicate_succ, List.map_cons] at h
    obtain ⟨hanswers, hlast⟩ := Prod.mk.inj h
    obtain ⟨hfirst, hrest⟩ := List.cons.inj hanswers
    have hnext : d.next = (.ok (some payload), d.next.2) :=
      Prod.ext (Answer.next.inj hfirst) rfl
    have hlt := Decoder.next_unread_length hnext
    have hle := ih (Prod.ext hrest hlast)
    rw [List.length_cons]
    omega

/-- Whatever calls are made of a new decoder, a machine that checks its places makes them too, unless
it has no room for the bytes of one of them beside the unread ones and fewer than 4096 used ones. The
used bytes are some of the buffer's. The answers, and the bytes that are left, are those of a machine
that has the unread bytes only. A feed leaves less than 4096 used bytes. A payload that is taken is
that of a frame at the front of the unread bytes and the frame is gone then, so asking for payloads
comes to an end. After a fault the decoder is a new one. -/
theorem in_bounds_and_answers_from_unread (limit : Nat) (room : UInt64) (calls : List Call) :
    let fresh := Decoder.empty limit
    let d := (run Decoder.answer calls fresh).2
    (Checked.run room calls fresh = .ok (run Decoder.answer calls fresh) ∨
      Checked.run room calls fresh = .error .outOfRoom ∧
        ∃ early call late, calls = early ++ call :: late ∧ room.toNat < compactionThreshold +
          ((run Decoder.answer early fresh).2.unread ++ call.bytes).length) ∧
    d.used ≤ d.buffer.size ∧
    run (answerUnread limit) calls [] = ((run Decoder.answer calls fresh).1, d.unread) ∧
    (∀ bytes, (d.feed bytes).used < compactionThreshold ∧
      (d.feed bytes).buffer.size < compactionThreshold + (d.unread ++ bytes).length) ∧
    (∀ payload d', d.next = (.ok (some payload), d') →
      Begins limit d.unread payload d'.unread ∧ d'.unread.length < d.unread.length) ∧
    (∀ (payloads : List (List UInt8)) d', run Decoder.answer (List.replicate payloads.length .next) d =
        (payloads.map fun payload => .next (.ok (some payload)), d') →
      payloads.length + d'.unread.length ≤ d.unread.length) ∧
    ∀ fault d', (d.next = (.error fault, d') ∨ ∃ bytes, d.decode bytes = (.error fault, d')) →
      d' = fresh := by
  intro fresh d
  obtain ⟨hrun, hl, hsound⟩ := run_eq (Decoder.sound_empty limit) calls
  refine ⟨Checked.run_eq (.empty room limit) calls, hsound, hrun, fun bytes => ?_,
    fun payload d' hnext => ?_, fun payloads d' => length_le_of_asked, ?_⟩
  · exact ⟨Decoder.used_feed_lt d bytes, Decoder.size_feed_lt hsound bytes⟩
  · obtain ⟨hfront, -⟩ := Decoder.front_of_next_some hnext
    rw [show d.limit = limit from hl] at hfront
    exact ⟨front_eq_frame_iff.1 hfront, Decoder.next_unread_length hnext⟩
  · rintro fault d' (hnext | ⟨bytes, hdecode⟩)
    · exact (Decoder.next_of_fault hnext).trans (congrArg _ hl)
    · exact (Decoder.decode_of_fault hdecode).trans (congrArg _ hl)

/-- A frame with a bare line behind it: the payload is taken with its frame, and decoding on empties
the decoder. -/
theorem new_after_bare_line :
    let d := (run Decoder.answer [.feed frameAndBareLine] (Decoder.empty 9)).2
    (∃ d', d.next = (.ok (some [91, 93]), d') ∧ Begins 9 d.unread [91, 93] d'.unread ∧
      1 + d'.unread.length ≤ d.unread.length) ∧
    ∃ d', d.decode [] = (.error (.malformed .bareLineFeed), d') ∧ d' = Decoder.empty 9 := by
  intro d
  have hd : d.Sound := Decoder.sound_feed (Decoder.sound_empty 9) _
  have hunread : d.unread = frameAndBareLine := Decoder.unread_feed (Decoder.sound_empty 9) _
  obtain ⟨-, -, -, -, hpayload, hasked, hfault⟩ :=
    in_bounds_and_answers_from_unread 9 64 [.feed frameAndBareLine]
  constructor
  · have hfront : front 9 d.unread = .frame [91, 93] [88, 10] := by
      rw [hunread]
      exact front_encode_append (by decide) (by decide) _
    obtain ⟨d', hnext, -, -, -⟩ := Decoder.next_of_front_frame (d := d) hfront
    refine ⟨d', hnext, (hpayload _ _ hnext).1, hasked [[91, 93]] d' ?_⟩
    change ([Answer.next d.next.1], d.next.2) = _
    rw [hnext]
    rfl
  · obtain ⟨d', hdrain, -, -⟩ := Decoder.drain_eq_frames (Decoder.sound_feed hd [])
    have hfrom : frames (d.feed []).limit (d.feed []).unread = frames 9 frameAndBareLine := by
      rw [Decoder.unread_feed hd, hunread, List.append_nil]
      rfl
    rw [hfrom, frames_frameAndBareLine] at hdrain
    exact ⟨d', hdrain, hfault _ _ (.inr ⟨[], hdrain⟩)⟩

end PeerRpc.Frame
