import PeerRpc.Proofs.Frame.Upkeep

/-!
# Bytes that are held back

As long as a frame is not complete, a decoder holds back all bytes of it that have arrived, the header
lines included. A header line has a limit, and so has the payload, but a header may have any number of
lines.

* `held_within_header_lines`: fed in pieces of a bounded size, a decoder holds back no more than so many
  bytes for each header line that is complete, and as many again; and it can be made to hold back any
  number of such lines.
-/

namespace PeerRpc.Frame

open Frame.Field (AllFit lines told)

variable {limit n : Nat}

/-! ## Header lines that are complete -/

/-- The header lines at the front of some bytes, without their line feeds. An empty line ends them,
and a line that has not come to its end is not one of them. -/
def headerLines (input : List UInt8) : List (List UInt8) :=
  match h : splitLine input with
  | none => []
  | some (line, rest) =>
    have := splitLine_length h
    if line = [13] then [] else line :: headerLines rest
termination_by input.length

variable {before : Option Nat} {input more line rest : List UInt8}

theorem headerLines_of_none (h : splitLine input = none) : headerLines input = [] := by
  rw [headerLines.eq_def]
  split
  · rfl
  · rename_i h'
    cases h.symm.trans h'

theorem headerLines_of_some (h : splitLine input = some (line, rest)) :
    headerLines input = if line = [13] then [] else line :: headerLines rest := by
  rw [headerLines.eq_def]
  split
  · rename_i h'
    cases h.symm.trans h'
  · rename_i h'
    cases h.symm.trans h'
    rfl

theorem length_lt_of_mem_headerLines (h : line ∈ headerLines input) :
    line.length < input.length := by
  fun_induction headerLines input with
  | case1 => cases h
  | case2 => cases h
  | case3 input first rest hs hlt hne ih =>
    obtain rfl | hmem := List.mem_cons.1 h
    · obtain ⟨rfl, -⟩ := splitLine_eq_some_iff.1 hs
      simp only [List.length_append, List.length_cons]
      omega
    · exact (ih hmem).trans hlt

theorem eq_singleton_of_getLast? (hl : line.getLast? = some 13) (hd : line.dropLast = []) :
    line = [13] := by
  rw [← List.dropLast_append_getLast? 13 hl, hd, List.nil_append]

theorem ne_singleton_of_dropLast (hd : line.dropLast ≠ []) : line ≠ [13] :=
  fun h => hd (h ▸ rfl)

/-- The bytes of a header are those of its lines, and those behind the last one that is complete. -/
theorem length_le_of_headerBlock {found : Option (Option Nat × List UInt8)}
    (h : headerBlock limit before input = .ok found) :
    input.length ≤ ((headerLines input).map fun line => line.length + 1).sum +
      found.elim maxHeaderLine fun after => after.2.length + 2 := by
  fun_induction headerBlock limit before input with
  | case1 => cases h
  | case2 before input hs hshort =>
    cases h
    exact (Nat.le_of_not_lt hshort).trans (Nat.le_add_left _ _)
  | case3 before input line rest hs hlt hl hd =>
    cases h
    obtain rfl := eq_singleton_of_getLast? hl hd
    obtain ⟨rfl, -⟩ := splitLine_eq_some_iff.1 hs
    exact Nat.le_add_left _ _
  | case4 => cases h
  | case5 before input line rest hs hlt hl told hd hf ih =>
    have hrest := ih h
    rw [headerLines_of_some hs, if_neg (ne_singleton_of_dropLast hd), List.map_cons, List.sum_cons]
    obtain ⟨rfl, -⟩ := splitLine_eq_some_iff.1 hs
    simp only [List.length_append, List.length_cons]
    omega
  | case6 => cases h

/-- A piece can end a header line that is not complete yet, and so make it longer than the limit by
less than its own size. -/
theorem length_lt_of_mem_headerLines_append {found : Option (Option Nat × List UInt8)}
    (h : headerBlock limit before input = .ok found)
    (hlines : ∀ line ∈ headerLines input, line.length < maxHeaderLine + n)
    (hmore : more.length ≤ n) :
    ∀ line ∈ headerLines (input ++ more), line.length < maxHeaderLine + n := by
  fun_induction headerBlock limit before input with
  | case1 => cases h
  | case2 before input hs hshort =>
    intro line hline
    have hlt := length_lt_of_mem_headerLines hline
    rw [List.length_append] at hlt
    omega
  | case3 before input line rest hs hlt hl hd =>
    rw [headerLines_of_some (splitLine_append hs more), if_pos (eq_singleton_of_getLast? hl hd)]
    exact List.forall_mem_nil _
  | case4 => cases h
  | case5 before input line rest hs hlt hl told hd hf ih =>
    have hne := ne_singleton_of_dropLast hd
    rw [headerLines_of_some hs, if_neg hne, List.forall_mem_cons] at hlines
    rw [headerLines_of_some (splitLine_append hs more), if_neg hne, List.forall_mem_cons]
    exact ⟨hlines.1, ih h hlines.2⟩
  | case6 => cases h

/-! ## The beginning of a frame -/

theorem Field.told_le {fs : List Field} {m : Nat} (hall : AllFit limit fs)
    (h : told fs none = some m) : m ≤ limit := by
  rw [told, Option.or_none] at h
  obtain ⟨last, hlast, rfl⟩ := Option.map_eq_some_iff.1 h
  have hmem := List.mem_filter.1 (List.mem_of_getLast? hlast)
  exact (hall last hmem.1 hmem.2).within

/-- What may be the beginning of a frame lacks the end of its header, or some of its payload. -/
theorem headerBlock_of_front_waiting {left : List UInt8} (h : front limit input = .waiting left) :
    headerBlock limit none left = .ok none ∨
      ∃ m rest, headerBlock limit none left = .ok (some (some m, rest)) ∧ rest.length < m := by
  have hleft := eq_dropEmptyLines_of_front_waiting h
  unfold front at h
  dsimp only at h
  rw [← hleft] at h
  rcases hh : headerBlock limit none left with fault | _ | ⟨_ | m, rest⟩ <;> rw [hh] at h <;>
    dsimp only at h
  · cases h
  · exact .inl rfl
  · cases h
  · split_ifs at h with hlt
    exact .inr ⟨m, rest, rfl, hlt⟩

theorem front_of_front_waiting {left : List UInt8} (h : front limit input = .waiting left) :
    front limit left = .waiting left := by
  have hmore := front_append_of_waiting h []
  rw [List.append_nil, List.append_nil] at hmore
  exact hmore ▸ h

/-- Bytes that are held back: they may be the beginning of a frame, and the header lines among them are
longer than the limit by less than a number of bytes. -/
structure Held (limit n : Nat) (held : List UInt8) : Prop where
  waiting : front limit held = .waiting held
  line_lt : ∀ line ∈ headerLines held, line.length < maxHeaderLine + n

namespace Held

variable {held piece : List UInt8}

theorem nil (limit n : Nat) : Held limit n [] where
  waiting := front_nil limit
  line_lt := by
    rw [headerLines_of_none rfl]
    exact List.forall_mem_nil _

/-- Bytes stay held back when a piece arrives that does not complete the frame. -/
theorem append {left : List UInt8} (h : Held limit n held) (hpiece : piece.length ≤ n)
    (hfront : front limit (held ++ piece) = .waiting left) : Held limit n left := by
  refine ⟨front_of_front_waiting hfront, ?_⟩
  have hdrop := eq_dropEmptyLines_of_front_waiting h.waiting
  rw [eq_dropEmptyLines_of_front_waiting hfront]
  -- Without a line feed the held bytes are part of one line, and the piece may still show that this
  -- is an empty one.
  by_cases hfeed : 10 ∈ held
  · rw [dropEmptyLines_append_of_mem (hdrop ▸ hfeed), ← hdrop]
    obtain hblock | ⟨m, rest, hblock, -⟩ := headerBlock_of_front_waiting h.waiting
    · exact length_lt_of_mem_headerLines_append hblock h.line_lt hpiece
    · exact length_lt_of_mem_headerLines_append hblock h.line_lt hpiece
  · intro line hline
    have hlt := length_lt_of_mem_headerLines hline
    have hsuffix := (dropEmptyLines_suffix (held ++ piece)).length_le
    rw [List.length_append] at hsuffix
    have hshort : held.length ≤ maxHeaderLine := by
      by_contra hlong
      obtain hblock | ⟨m, rest, hblock, -⟩ := headerBlock_of_front_waiting h.waiting <;>
        rw [headerBlock_of_none (splitLine_eq_none_iff.2 hfeed),
          if_pos (Nat.lt_of_not_le hlong)] at hblock <;> cases hblock
    omega

/-- What a payload leaves is a part of the piece that has completed it. -/
theorem length_rest_le {payload rest : List UInt8} (h : Held limit n held)
    (hfront : front limit (held ++ piece) = .frame payload rest) : rest.length ≤ piece.length := by
  by_contra hlong
  obtain ⟨first, hbytes, hfirst⟩ := (front_eq_frame_iff.1 hfront).exists_eq_append
  obtain ⟨part, rfl⟩ : piece <:+ rest :=
    List.suffix_of_suffix_length_le ⟨held, rfl⟩ ⟨first, hbytes.symm⟩ (by omega)
  rw [← List.append_assoc] at hbytes
  have hheld := front_eq_frame_iff.2 (hfirst.append part)
  rw [← List.append_cancel_right hbytes, h.waiting] at hheld
  cases hheld

theorem length_le (h : Held limit n held) :
    held.length ≤ (headerLines held).length * (maxHeaderLine + n) +
      max maxHeaderLine (limit + 1) := by
  have hlines : ((headerLines held).map fun line => line.length + 1).sum ≤
      (headerLines held).length * (maxHeaderLine + n) := by
    rw [← List.length_map (fun line : List UInt8 => line.length + 1)]
    exact List.sum_le_card_nsmul _ _ (List.forall_mem_map.2 h.line_lt)
  obtain hblock | ⟨m, rest, hblock, hrest⟩ := headerBlock_of_front_waiting h.waiting
  · have hle : held.length ≤ _ + maxHeaderLine := length_le_of_headerBlock hblock
    omega
  · have hle : held.length ≤ _ + (rest.length + 2) := length_le_of_headerBlock hblock
    obtain ⟨fs, -, hall, htold⟩ := headerBlock_eq_ok_iff.1 hblock
    have hm := Field.told_le hall htold.symm
    omega

end Held

/-! ## Decoders that are fed in pieces -/

namespace Decoder

/-- Decoders that are fed pieces of at most some size and asked for payloads, where a piece is fed
only when there are no more payloads. A fault does not end this. -/
inductive Fed (limit n : Nat) : Decoder → Prop
  | empty : Fed limit n (empty limit)
  | feed {d d' : Decoder} {piece : List UInt8} (h : Fed limit n d) (hnext : d.next = (.ok none, d'))
    (hpiece : piece.length ≤ n) : Fed limit n (d'.feed piece)
  | payload {d d' : Decoder} {payload : List UInt8} (h : Fed limit n d)
    (hnext : d.next = (.ok (some payload), d')) : Fed limit n d'
  | fault {d d' : Decoder} {fault : Fault} (h : Fed limit n d) (hnext : d.next = (.error fault, d')) :
    Fed limit n d'

variable {d d' : Decoder}

/-- The unread bytes are some that are held back, and no more than a piece behind them. A piece need not
be held back itself: it may complete the frame, or bring a fault. -/
theorem Fed.exists_held (h : Fed limit n d) :
    d.Sound ∧ d.limit = limit ∧
      ∃ held piece, d.unread = held ++ piece ∧ Held limit n held ∧ piece.length ≤ n := by
  induction h with
  | empty => exact ⟨sound_empty limit, rfl, [], [], rfl, .nil limit n, Nat.zero_le n⟩
  | @feed d d' piece h hnext hpiece ih =>
    obtain ⟨hd, rfl, held, last, hunread, hheld, hlast⟩ := ih
    obtain ⟨hfront, hl, hd'⟩ := front_of_next_none hd hnext
    rw [hunread] at hfront
    exact ⟨sound_feed hd' piece, (limit_feed d' piece).trans hl, d'.unread, piece,
      unread_feed hd' piece, hheld.append hlast hfront, hpiece⟩
  | @payload d d' payload h hnext ih =>
    obtain ⟨hd, rfl, held, last, hunread, hheld, hlast⟩ := ih
    obtain ⟨hfront, hl, hd'⟩ := front_of_next_some hnext
    rw [hunread] at hfront
    exact ⟨hd', hl, [], d'.unread, rfl, .nil _ n, (hheld.length_rest_le hfront).trans hlast⟩
  | @fault d d' fault h hnext ih =>
    obtain ⟨-, rfl, -⟩ := ih
    rw [next_of_fault hnext]
    exact ⟨sound_empty _, rfl, [], [], rfl, .nil _ n, Nat.zero_le n⟩

theorem Fed.held_of_next (h : Fed limit n d) (hnext : d.next = (.ok none, d')) :
    Held limit n d'.unread := by
  obtain ⟨hd, rfl, held, piece, hunread, hheld, hpiece⟩ := h.exists_held
  obtain ⟨hfront, -⟩ := front_of_next_none hd hnext
  rw [hunread] at hfront
  exact hheld.append hpiece hfront

/-- Bytes can be fed one by one as long as they are the beginning of a frame only. -/
theorem exists_fed_of_waiting {input : List UInt8}
    (h : ∀ part, part <+: input → front limit part = .waiting part) :
    ∃ d d', Fed limit 1 d ∧ d.next = (.ok none, d') ∧ d'.unread = input := by
  suffices hfed : ∃ d, Fed limit 1 d ∧ d.unread = input by
    obtain ⟨d, hfed, rfl⟩ := hfed
    obtain ⟨hd, rfl, -⟩ := hfed.exists_held
    obtain ⟨d', hnext, hunread, -⟩ := next_of_front_waiting hd (h _ List.prefix_rfl)
    exact ⟨d, d', hfed, hnext, hunread⟩
  induction input using List.reverseRecOn with
  | nil => exact ⟨empty limit, .empty, rfl⟩
  | append_singleton input b ih =>
    obtain ⟨d, hfed, rfl⟩ := ih fun part hpart => h part (hpart.trans (List.prefix_append _ _))
    obtain ⟨hd, rfl, -⟩ := hfed.exists_held
    obtain ⟨d', hnext, hunread, -, hd'⟩ := next_of_front_waiting hd (h _ (List.prefix_append _ _))
    exact ⟨d'.feed [b], .feed hfed hnext le_rfl, by rw [unread_feed hd', hunread]⟩

end Decoder

/-! ## Headers that do not end -/

section Endless

variable {fs : List Field}

theorem headerLines_lines (fs : List Field) (rest : List UInt8) :
    headerLines (lines fs ++ rest) = (fs.map fun f => f.bytes ++ [13]) ++ headerLines rest := by
  induction fs with
  | nil => rfl
  | cons f fs ih =>
    have hne : f.bytes ++ [13] ≠ [13] :=
      fun h => f.bytes_ne_nil (List.append_cancel_right (h.trans (List.nil_append _).symm))
    rw [Field.lines_cons, List.append_assoc, List.append_assoc,
      headerLines_of_some (splitLine_lineEnd f.feed_notMem_bytes _), if_neg hne, ih]
    rfl

/-- A header that has not ended is the beginning of a frame, however many lines it has. -/
theorem front_lines_append (hall : AllFit limit fs) (hfeed : 10 ∉ line)
    (hshort : line.length ≤ maxHeaderLine) :
    front limit (lines fs ++ line) = .waiting (lines fs ++ line) := by
  unfold front
  dsimp only
  rw [dropEmptyLines_lines_append fs hfeed, headerBlock_lines hall,
    headerBlock_of_none (splitLine_eq_none_iff.2 hfeed), if_neg (Nat.not_lt.2 hshort)]

/-- Wherever a header without an end stops, it stops inside a line. -/
theorem exists_lines_of_isPrefix {part : List UInt8} (h : part <+: lines fs ++ line)
    (hfs : ∀ f ∈ fs, f.bytes.length < maxHeaderLine) (hfeed : 10 ∉ line)
    (hshort : line.length ≤ maxHeaderLine) :
    ∃ early last, part = lines early ++ last ∧ early <+: fs ∧ 10 ∉ last ∧
      last.length ≤ maxHeaderLine := by
  induction fs generalizing part with
  | nil =>
    exact ⟨[], part, rfl, List.nil_prefix, fun hmem => hfeed (h.subset hmem),
      h.length_le.trans hshort⟩
  | cons f fs ih =>
    obtain ⟨hf, hfs⟩ := List.forall_mem_cons.1 hfs
    have hsplit : lines (f :: fs) ++ line = (f.bytes ++ [13]) ++ ([10] ++ (lines fs ++ line)) := by
      rw [Field.lines_cons, List.append_assoc, List.append_assoc, List.append_assoc]
      rfl
    rw [hsplit] at h
    by_cases hpart : part.length ≤ (f.bytes ++ [13]).length
    · have hinside := List.prefix_of_prefix_length_le h (List.prefix_append _ _) hpart
      refine ⟨[], part, rfl, List.nil_prefix, fun hmem => ?_, hpart.trans ?_⟩
      · obtain hmem | hmem := List.mem_append.1 (hinside.subset hmem)
        · exact f.feed_notMem_bytes hmem
        · exact absurd (List.mem_singleton.1 hmem) (by decide)
      · rw [List.length_append]
        exact hf
    · have hend : (f.bytes ++ [13]) ++ [10] <+: part := by
        refine List.prefix_of_prefix_length_le ⟨_, List.append_assoc _ _ _⟩ h ?_
        rw [List.length_append]
        exact Nat.lt_of_not_le hpart
      obtain ⟨more, rfl⟩ := hend
      rw [← List.append_assoc, List.prefix_append_right_inj] at h
      obtain ⟨early, last, rfl, hearly, hlast⟩ := ih h hfs
      refine ⟨f :: early, last, ?_, List.cons_prefix_cons.2 ⟨rfl, hearly⟩, hlast⟩
      rw [Field.lines_cons, List.append_assoc, List.append_assoc, List.append_assoc]
      rfl

end Endless

/-- A header of some lines that are as long as they may be, and of one that lacks its end. -/
def endlessHeader (k : Nat) : List UInt8 :=
  lines (List.replicate k (.filler (maxHeaderLine - 3))) ++ (Field.filler (maxHeaderLine - 2)).bytes

theorem length_endlessHeader (k : Nat) :
    (endlessHeader k).length = k * (maxHeaderLine + 1) + maxHeaderLine := by
  have hline : ((Field.filler (maxHeaderLine - 3)).bytes ++ lineEnd).length = maxHeaderLine + 1 := by
    rw [List.length_append, Field.length_bytes_filler]
    rfl
  rw [endlessHeader, lines, List.length_append, List.length_flatMap, List.map_replicate, hline,
    List.sum_replicate_nat, Field.length_bytes_filler]
  rfl

theorem length_headerLines_endlessHeader (k : Nat) :
    (headerLines (endlessHeader k)).length = k := by
  rw [endlessHeader, headerLines_lines,
    headerLines_of_none (splitLine_eq_none_iff.2 (Field.feed_notMem_bytes _)), List.append_nil,
    List.length_map, List.length_replicate]

/-- All of a header without an end can be fed byte by byte. -/
theorem exists_fed_endlessHeader (limit k : Nat) :
    ∃ d d', Decoder.Fed limit 1 d ∧ d.next = (.ok none, d') ∧ d'.unread = endlessHeader k := by
  refine Decoder.exists_fed_of_waiting fun part hpart => ?_
  obtain ⟨early, last, rfl, hearly, hfeed, hshort⟩ := exists_lines_of_isPrefix hpart
    (fun f hf => by rw [List.eq_of_mem_replicate hf, Field.length_bytes_filler]; decide)
    (Field.feed_notMem_bytes _) (by rw [Field.length_bytes_filler]; decide)
  refine front_lines_append (fun f hf hlength => ?_) hfeed hshort
  rw [List.eq_of_mem_replicate (hearly.subset hf), Field.isLength_filler] at hlength
  exact absurd hlength Bool.false_ne_true

/-- A decoder is fed pieces of at most some size and asked for payloads until there are none. Of the
bytes that it holds back then, the complete header lines are longer than the limit by less than a
piece each, and behind them stands a line without its end, or an empty line and a part of a payload.
The number of these lines has no bound: fed byte by byte, a decoder may hold back any number of them,
each as long as a line may be, and a line without its end. -/
theorem held_within_header_lines (limit n : Nat) :
    (∀ d d', Decoder.Fed limit n d → d.next = (.ok none, d') →
      d'.unread.length ≤ (headerLines d'.unread).length * (maxHeaderLine + n) +
        max maxHeaderLine (limit + 1)) ∧
    ∀ k, ∃ d d', Decoder.Fed limit 1 d ∧ d.next = (.ok none, d') ∧
      (headerLines d'.unread).length = k ∧
      d'.unread.length = k * (maxHeaderLine + 1) + maxHeaderLine := by
  refine ⟨fun d d' hfed hnext => (hfed.held_of_next hnext).length_le, fun k => ?_⟩
  obtain ⟨d, d', hfed, hnext, hunread⟩ := exists_fed_endlessHeader limit k
  refine ⟨d, d', hfed, hnext, ?_, ?_⟩
  · rw [hunread, length_headerLines_endlessHeader]
  · rw [hunread, length_endlessHeader]

/-- Two full lines and an unfinished one have as many bytes as two header lines allow. -/
theorem two_full_lines_held :
    ∃ d d', Decoder.Fed 9 1 d ∧ d.next = (.ok none, d') ∧ d'.unread = endlessHeader 2 ∧
      d'.unread.length = 2 * (maxHeaderLine + 1) + max maxHeaderLine (9 + 1) ∧
      d'.unread.length ≤ (headerLines d'.unread).length * (maxHeaderLine + 1) +
        max maxHeaderLine (9 + 1) := by
  obtain ⟨d, d', hfed, hnext, hunread⟩ := exists_fed_endlessHeader 9 2
  refine ⟨d, d', hfed, hnext, hunread, ?_, (held_within_header_lines 9 1).1 d d' hfed hnext⟩
  rw [hunread, length_endlessHeader]
  rfl

/-- The limits alone do not bound the bytes that are held back. -/
theorem held_beyond_every_bound :
    ¬∀ limit, ∃ bound, ∀ d d', Decoder.Fed limit 1 d → d.next = (.ok none, d') →
      d'.unread.length ≤ bound := by
  intro h
  obtain ⟨bound, hbound⟩ := h 9
  obtain ⟨d, d', hfed, hnext, hunread⟩ := exists_fed_endlessHeader 9 bound
  have hle := hbound d d' hfed hnext
  rw [hunread, length_endlessHeader, Nat.mul_succ] at hle
  have hmany : 0 < maxHeaderLine := by decide
  omega

end PeerRpc.Frame
