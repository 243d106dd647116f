import PeerRpc.Proofs.Frame.Truncation

/-!
# Frames that are too long

A reader never gets past a frame whose payload is beyond its limit: until the length has arrived it
waits, and then it fails (`Stuck`, `Reader.next_of_stuck`). The same holds of a part of a frame that
is not beyond the limit, which it waits for.
-/

namespace PeerRpc.Frame

/-- Bytes at whose front no frame is found, however many of them have been read: so far they may be
the beginning of one, or they are none. -/
def Stuck (limit : Nat) (input : List UInt8) : Prop :=
  ∀ part, part <+: input →
    front limit part = .waiting part ∨ ∃ fault, front limit part = .broken fault

variable {limit : Nat} {payload input rest : List UInt8}

theorem Fragment.stuck (h : Fragment limit input) (hl : limit < UInt64.size) : Stuck limit input :=
  fun _ hp => .inl (front_of_fragment hl (h.of_isPrefix hp))

theorem front_encode_of_lt (h : limit < payload.length) (rest : List UInt8) :
    ∃ fault, front limit (encode payload ++ rest) = .broken fault := by
  obtain ⟨fault, hfault⟩ := lengthOfLine_of_lt h
  refine ⟨fault, ?_⟩
  unfold front
  dsimp only
  rw [encode_eq, List.append_assoc, dropEmptyLines_preamble, headerBlock_preamble_eq, hfault]

/-- The beginning of a frame that is too long, or all of it and some more. -/
theorem stuck_of_lt (h : limit < payload.length) (hp : input <+: encode payload ++ rest) :
    Stuck limit input := by
  intro part hpart
  obtain ⟨more, hmore⟩ := hpart.trans hp
  obtain ⟨fault, hbroken⟩ := front_encode_of_lt h rest
  rcases hf : front limit part with left | ⟨payload', after⟩ | fault'
  · rw [eq_dropEmptyLines_of_front_waiting hf, dropEmptyLines_of_isPrefix (hpart.trans hp)]
    exact .inl rfl
  · rw [← hmore, front_append_of_frame hf] at hbroken
    cases hbroken
  · exact .inr ⟨fault', rfl⟩

/-- The beginning of a frame and some more bytes is the whole frame and some more, or a reader gets
stuck in it. -/
theorem whole_or_stuck (hl : limit < UInt64.size) (h : input <+: encode payload ++ rest) :
    (payload.length ≤ limit ∧ ∃ more, input = encode payload ++ more ∧ more <+: rest) ∨
      Stuck limit input := by
  rcases Nat.lt_or_ge limit payload.length with hlt | hle
  · exact .inr (stuck_of_lt hlt h)
  · rcases whole_or_fragment hle h with hwhole | hpart
    · exact .inl ⟨hle, hwhole⟩
    · exact .inr (hpart.stuck hl)

namespace Reader

variable {r : Reader} {d : Decoder} {source : Source}

/-- A reader that is stuck gives no payload; as long as it waits, it keeps what is ahead of it. -/
theorem advance_of_stuck (chunk : Nat) (hd : d.Sound)
    (h : Stuck d.limit (d.unread ++ source.bytes)) :
    (∀ payload, (advance d source chunk).1 ≠ .payload payload) ∧
      ((advance d source chunk).1 = .waiting →
        (advance d source chunk).2.Ready d.limit ∧
          (advance d source chunk).2.ahead = d.unread ++ source.bytes) := by
  induction hn : source.size using Nat.strong_induction_on generalizing d source with
  | _ n ih =>
    subst hn
    rcases h d.unread (List.prefix_append _ _) with hwait | ⟨fault, hbroken⟩
    · obtain ⟨d', hnext, hu, hl', hd'⟩ := Decoder.next_of_front_waiting hd hwait
      obtain ⟨pieces, ending⟩ := source
      cases pieces with
      | nil =>
        rw [advance_of_none_nil hnext]
        refine ⟨?_, fun hwaiting => ?_⟩
        · cases ending <;> exact fun _ => Received.noConfusion
        · cases ending with
          | undecided =>
            refine ⟨⟨hd', hl', rfl⟩, ?_⟩
            rw [ahead, hu]
          | ended => cases hwaiting
          | failed reason => cases hwaiting
      | cons piece pieces =>
        rw [advance_of_none hnext]
        have hfeed := Decoder.sound_feed hd' (piece.take (max 1 chunk))
        have := @ih _ (Source.size_after chunk piece pieces ending) _
          ⟨Source.after chunk piece pieces, ending⟩ hfeed
        rw [Decoder.limit_feed, hl', Decoder.unread_feed hd', hu, List.append_assoc,
          Source.bytes_after] at this
        exact this h rfl
    · have hnext := Decoder.next_of_front_broken hbroken
      rw [advance.eq_def, hnext]
      exact ⟨fun _ => Received.noConfusion, fun hwaiting => nomatch hwaiting⟩

theorem next_of_stuck (hr : r.Ready limit) (h : Stuck limit r.ahead) :
    (∀ payload, r.next.1 ≠ .payload payload) ∧
      (r.next.1 = .waiting → r.next.2.Ready limit ∧ r.next.2.ahead = r.ahead) := by
  obtain ⟨hd, rfl, hf⟩ := hr
  unfold next
  rw [hf]
  exact advance_of_stuck r.chunk hd h

end Reader

end PeerRpc.Frame
