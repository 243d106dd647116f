import Mathlib
import PeerRpc.Frame.Decoder

/-!
# The decoder as a function of its unread bytes

The decoder works with places in a buffer. Here the same search for a frame is told on the list of
unread bytes: `splitLine` cuts off a line, `headerBlock` reads the headers and `front` says what the
bytes begin with. `next_of_front_waiting`, `next_of_front_frame` and `next_of_front_broken` give what
the decoder does in these terms, whatever stands before the unread bytes in the buffer.

The second half is about more bytes arriving: a line, a block of headers, a frame and a fault that
have been found stay what they are (`front_append_of_frame`, `front_append_of_broken`), except for
the complaint about a line that goes on for too long.
-/

namespace PeerRpc.Frame

/-! ## Lists of bytes -/

/-- The bytes before the first line feed and those after it, if there is a line feed. -/
def splitLine : List UInt8 → Option (List UInt8 × List UInt8)
  | [] => none
  | b :: rest =>
    if b = 10 then some ([], rest)
    else (splitLine rest).map fun (line, after) => (b :: line, after)

theorem splitLine_eq_some_iff {input line rest : List UInt8} :
    splitLine input = some (line, rest) ↔ input = line ++ 10 :: rest ∧ 10 ∉ line := by
  induction input generalizing line with
  | nil => simp [splitLine]
  | cons b input ih =>
    unfold splitLine
    split_ifs with hb
    · subst hb
      cases line with
      | nil => simp [eq_comm]
      | cons c line => simp +contextual [eq_comm]
    · rw [Option.map_eq_some_iff]
      constructor
      · rintro ⟨⟨l, r⟩, hl, he⟩
        obtain ⟨rfl, rfl⟩ := Prod.mk.inj he
        obtain ⟨rfl, hn⟩ := ih.1 hl
        exact ⟨rfl, by simp [Ne.symm hb, hn]⟩
      · rintro ⟨he, hn⟩
        cases line with
        | nil => exact absurd (List.cons.inj he).1 hb
        | cons c line =>
          obtain ⟨rfl, rfl⟩ := List.cons.inj he
          exact ⟨(line, rest), ih.2 ⟨rfl, fun h => hn (List.mem_cons_of_mem _ h)⟩, rfl⟩

theorem splitLine_eq_none_iff {input : List UInt8} : splitLine input = none ↔ 10 ∉ input := by
  induction input with
  | nil => simp [splitLine]
  | cons b input ih =>
    unfold splitLine
    split_ifs with hb
    · simp [hb]
    · simp [ih, Ne.symm hb]

theorem splitLine_append {input line rest : List UInt8} (h : splitLine input = some (line, rest))
    (more : List UInt8) : splitLine (input ++ more) = some (line, rest ++ more) := by
  obtain ⟨rfl, hn⟩ := splitLine_eq_some_iff.1 h
  exact splitLine_eq_some_iff.2 ⟨by simp, hn⟩

theorem splitLine_length {input line rest : List UInt8} (h : splitLine input = some (line, rest)) :
    rest.length < input.length := by
  obtain ⟨rfl, -⟩ := splitLine_eq_some_iff.1 h
  simp only [List.length_append, List.length_cons]
  omega

/-- The bytes after the empty lines at their front. -/
def dropEmptyLines : List UInt8 → List UInt8
  | a :: b :: rest => if a = 13 && b = 10 then dropEmptyLines rest else a :: b :: rest
  | other => other

/-- Empty lines can be dropped as they arrive. -/
theorem dropEmptyLines_append (input more : List UInt8) :
    dropEmptyLines (input ++ more) = dropEmptyLines (dropEmptyLines input ++ more) := by
  fun_induction dropEmptyLines input with
  | case1 a b rest h ih =>
    rw [List.cons_append, List.cons_append, dropEmptyLines, if_pos h, ih]
  | case2 => rfl
  | case3 => rfl

theorem dropEmptyLines_suffix (input : List UInt8) : dropEmptyLines input <:+ input := by
  fun_induction dropEmptyLines input with
  | case1 a b rest h ih => exact ih.trans ⟨[a, b], rfl⟩
  | case2 => exact List.suffix_rfl
  | case3 => exact List.suffix_rfl

theorem dropEmptyLines_idem (input : List UInt8) :
    dropEmptyLines (dropEmptyLines input) = dropEmptyLines input := by
  simpa using (dropEmptyLines_append input []).symm

/-- Once a line feed is among the bytes that are left, no more of them can turn out to be empty
lines. -/
theorem dropEmptyLines_append_of_mem {input : List UInt8} (h : 10 ∈ dropEmptyLines input)
    (more : List UInt8) : dropEmptyLines (input ++ more) = dropEmptyLines input ++ more := by
  rw [dropEmptyLines_append]
  have hidem := dropEmptyLines_idem input
  generalize dropEmptyLines input = left at h hidem ⊢
  match left, h, hidem with
  | [a], h, _ =>
    obtain rfl : (10 : UInt8) = a := by simpa using h
    cases more <;> simp [dropEmptyLines]
  | a :: b :: rest, _, hidem =>
    by_cases hab : (a = 13 && b = 10) = true
    · rw [dropEmptyLines, if_pos hab] at hidem
      have := (dropEmptyLines_suffix rest).length_le
      rw [hidem, List.length_cons, List.length_cons] at this
      omega
    · rw [List.cons_append, List.cons_append, dropEmptyLines, if_neg hab]

/-- Reads header lines up to an empty one. Gives the length told last, if any, and the bytes after
the empty line; `none` if the bytes end before that. -/
def headerBlock (limit : Nat) (length : Option Nat) (input : List UInt8) :
    Except Fault (Option (Option Nat × List UInt8)) :=
  match h : splitLine input with
  | none =>
    if maxHeaderLine < input.length then .error (.malformed .lineTooLong) else .ok none
  | some (line, rest) =>
    have := splitLine_length h
    match line.getLast? with
    | some 13 =>
      match line.dropLast with
      | [] => .ok (some (length, rest))
      | line =>
        match lengthOfLine limit line with
        | .error fault => .error fault
        | .ok told => headerBlock limit (told.or length) rest
    | _ => .error (.malformed .bareLineFeed)
termination_by input.length

theorem headerBlock_of_none {limit : Nat} {length : Option Nat} {input : List UInt8}
    (h : splitLine input = none) :
    headerBlock limit length input =
      if maxHeaderLine < input.length then .error (.malformed .lineTooLong) else .ok none := by
  rw [headerBlock.eq_def]
  split
  · rfl
  · rw [h] at *
    contradiction

theorem headerBlock_of_bare {limit : Nat} {length : Option Nat} {input line rest : List UInt8}
    (h : splitLine input = some (line, rest)) (hl : line.getLast? ≠ some 13) :
    headerBlock limit length input = .error (.malformed .bareLineFeed) := by
  rw [headerBlock.eq_def]
  split
  · simp_all
  · rename_i h'
    obtain ⟨rfl, rfl⟩ := Prod.mk.inj (Option.some.inj (h.symm.trans h'))
    split
    · contradiction
    · rfl

theorem headerBlock_of_end {limit : Nat} {length : Option Nat} {input line rest : List UInt8}
    (h : splitLine input = some (line, rest)) (hl : line.getLast? = some 13)
    (he : line.dropLast = []) : headerBlock limit length input = .ok (some (length, rest)) := by
  rw [headerBlock.eq_def]
  split
  · simp_all
  · rename_i h'
    obtain ⟨rfl, rfl⟩ := Prod.mk.inj (Option.some.inj (h.symm.trans h'))
    rw [hl, he]
    rfl

theorem headerBlock_of_line {limit : Nat} {length : Option Nat} {input line rest : List UInt8}
    (h : splitLine input = some (line, rest)) (hl : line.getLast? = some 13)
    (hne : line.dropLast ≠ []) :
    headerBlock limit length input =
      match lengthOfLine limit line.dropLast with
      | .error fault => .error fault
      | .ok told => headerBlock limit (told.or length) rest := by
  rw [headerBlock.eq_def]
  split
  · simp_all
  · rename_i h'
    obtain ⟨rfl, rfl⟩ := Prod.mk.inj (Option.some.inj (h.symm.trans h'))
    rw [hl]
    cases hd : line.dropLast with
    | nil => exact absurd hd hne
    | cons c cs => rfl

/-- What some bytes begin with. -/
inductive Front where
  /-- Perhaps the beginning of a frame; the bytes without the empty lines before it. -/
  | waiting (unread : List UInt8)
  /-- A frame; its payload and the bytes after it. -/
  | frame (payload rest : List UInt8)
  /-- Something that no frame begins with. -/
  | broken (fault : Fault)

/-- Looks for a frame at the front of some bytes. -/
def front (limit : Nat) (input : List UInt8) : Front :=
  let unread := dropEmptyLines input
  match headerBlock limit none unread with
  | .error fault => .broken fault
  | .ok none => .waiting unread
  | .ok (some (none, _)) => .broken .lengthMissing
  | .ok (some (some n, rest)) =>
    if rest.length < n then .waiting unread else .frame (rest.take n) (rest.drop n)

/-! ## Places and lists -/

theorem splitLine_drop_of_lineFeed? {buffer : Array UInt8} {i j : Nat}
    (h : lineFeed? buffer i = some j) :
    splitLine (buffer.toList.drop i) =
      some ((buffer.extract i j).toList, buffer.toList.drop (j + 1)) := by
  fun_induction lineFeed? buffer i with
  | case1 i hi hb =>
    obtain rfl : i = j := by simpa using h
    rw [List.drop_eq_getElem_cons (by simpa using hi), splitLine, if_pos (by simpa using hb)]
    simp
  | case2 i hi hb ih =>
    have hp := lineFeed?_place h
    rw [List.drop_eq_getElem_cons (by simpa using hi), splitLine, if_neg (by simpa using hb), ih h]
    have he : (buffer.extract i j).toList = buffer[i] :: (buffer.extract (i + 1) j).toList := by
      rw [Array.toList_extract, Array.toList_extract, List.extract_eq_take_drop,
        List.extract_eq_take_drop, List.drop_eq_getElem_cons (by simpa using hi),
        show j - i = j - (i + 1) + 1 by omega, List.take_succ_cons, Array.getElem_toList]
    rw [he]
    rfl
  | case3 i hi => simp at h

theorem splitLine_drop_of_lineFeed?_none {buffer : Array UInt8} {i : Nat}
    (h : lineFeed? buffer i = none) : splitLine (buffer.toList.drop i) = none := by
  fun_induction lineFeed? buffer i with
  | case1 => simp at h
  | case2 i hi hb ih =>
    rw [List.drop_eq_getElem_cons (by simpa using hi), splitLine, if_neg (by simpa using hb), ih h]
    rfl
  | case3 i hi =>
    rw [List.drop_eq_nil_of_le (by simpa using hi)]
    rfl

theorem drop_skipEmptyLines (buffer : Array UInt8) (i : Nat) :
    buffer.toList.drop (skipEmptyLines buffer i) = dropEmptyLines (buffer.toList.drop i) := by
  fun_induction skipEmptyLines buffer i with
  | case1 i hi hb ih =>
    rw [ih, List.drop_eq_getElem_cons (i := i) (by simp; omega),
      List.drop_eq_getElem_cons (i := i + 1) (by simpa using hi), dropEmptyLines,
      if_pos (by simpa using hb)]
  | case2 i hi hb =>
    rw [List.drop_eq_getElem_cons (i := i) (by simp; omega),
      List.drop_eq_getElem_cons (i := i + 1) (by simpa using hi), dropEmptyLines,
      if_neg (by simpa using hb)]
  | case3 i hi =>
    have hlen : (buffer.toList.drop i).length ≤ 1 := by
      simp only [List.length_drop, Array.length_toList]
      omega
    match buffer.toList.drop i, hlen with
    | [], _ => rfl
    | [_], _ => rfl

/-- The reading of headers at a place is the reading of headers on the bytes from there on. -/
theorem headerBlock_drop (limit : Nat) (buffer : Array UInt8) (length : Option Nat) (i : Nat) :
    headerBlock limit length (buffer.toList.drop i) =
      (headers limit buffer length i).map (Option.map fun r => (r.1, buffer.toList.drop r.2)) := by
  fun_induction headers limit buffer length i with
  | case1 length i hl hlong =>
    rw [headerBlock_of_none (splitLine_drop_of_lineFeed?_none hl), if_pos (by simpa using hlong)]
    rfl
  | case2 length i hl hshort =>
    rw [headerBlock_of_none (splitLine_drop_of_lineFeed?_none hl), if_neg (by simpa using hshort)]
    rfl
  | case3 length i j hl hp line hlast hdrop =>
    rw [headerBlock_of_end (splitLine_drop_of_lineFeed? hl) hlast hdrop]
    rfl
  | case4 length i j hl hp line hlast fault hdrop hf =>
    rw [headerBlock_of_line (splitLine_drop_of_lineFeed? hl) hlast hdrop, hf]
    rfl
  | case5 length i j hl hp line hlast told hdrop hf ih =>
    rw [headerBlock_of_line (splitLine_drop_of_lineFeed? hl) hlast hdrop, hf]
    exact ih
  | case6 length i j hl hp line hlast =>
    rw [headerBlock_of_bare (splitLine_drop_of_lineFeed? hl) hlast]
    rfl

/-! ## The decoder -/

namespace Decoder

/-- The used bytes are some of the buffer's. -/
def Sound (d : Decoder) : Prop := d.used ≤ d.buffer.size

theorem sound_empty (limit : Nat) : (empty limit).Sound := Nat.le_refl 0

@[simp] theorem unread_empty (limit : Nat) : (empty limit).unread = [] := rfl

@[simp] theorem limit_empty (limit : Nat) : (empty limit).limit = limit := rfl

@[simp] theorem limit_feed (d : Decoder) (bytes : List UInt8) : (d.feed bytes).limit = d.limit := by
  unfold feed
  split <;> rfl

theorem unread_feed {d : Decoder} (h : d.Sound) (bytes : List UInt8) :
    (d.feed bytes).unread = d.unread ++ bytes := by
  unfold feed unread
  split
  · simp [List.take_of_length_le]
  · have hle : d.used ≤ d.buffer.toList.length := h
    simp [List.drop_append_of_le_length hle]

theorem sound_feed {d : Decoder} (h : d.Sound) (bytes : List UInt8) : (d.feed bytes).Sound := by
  unfold feed Sound at *
  split
  · exact Nat.zero_le _
  · simp only [Array.size_append]
    omega

theorem hasUnread_iff (d : Decoder) : d.hasUnread = true ↔ d.unread ≠ [] := by
  rw [hasUnread, decide_eq_true_iff, ← List.length_pos_iff, length_unread]
  omega

/-- A search at the front of the unread bytes, put as places in the buffer. -/
theorem front_unread (d : Decoder) :
    front d.limit d.unread =
      match scan d.limit d.buffer d.used with
      | .waiting start => .waiting (d.buffer.toList.drop start)
      | .frame payload stop => .frame payload (d.buffer.toList.drop stop)
      | .broken fault => .broken fault := by
  unfold front scan unread
  dsimp only
  rw [← drop_skipEmptyLines, headerBlock_drop]
  rcases hh : headers d.limit d.buffer none (skipEmptyLines d.buffer d.used) with
    fault | _ | ⟨_ | n, j⟩
  · rfl
  · rfl
  · rfl
  · have hj := headers_place hh
    simp only [Except.map, Option.map_some, List.length_drop, Array.length_toList]
    split_ifs with hn
    · rfl
    · simp [List.extract_eq_take_drop]

variable {d : Decoder}

theorem next_of_front_waiting {left : List UInt8} (hd : d.Sound)
    (h : front d.limit d.unread = .waiting left) :
    ∃ d', d.next = (.ok none, d') ∧ d'.unread = left ∧ d'.limit = d.limit ∧ d'.Sound := by
  rw [front_unread] at h
  unfold next
  rcases hs : scan d.limit d.buffer d.used with start | _ | _ <;> rw [hs] at h
  · refine ⟨_, rfl, Front.waiting.inj h, rfl, ?_⟩
    have := scan_waiting_place hs
    change start ≤ d.buffer.size
    change d.used ≤ d.buffer.size at hd
    omega
  · cases h
  · cases h

theorem next_of_front_frame {payload rest : List UInt8}
    (h : front d.limit d.unread = .frame payload rest) :
    ∃ d', d.next = (.ok (some payload), d') ∧ d'.unread = rest ∧ d'.limit = d.limit ∧
      d'.Sound := by
  rw [front_unread] at h
  unfold next
  rcases hs : scan d.limit d.buffer d.used with _ | ⟨p, stop⟩ | _ <;> rw [hs] at h
  · cases h
  · obtain ⟨rfl, rfl⟩ := Front.frame.inj h
    exact ⟨_, rfl, rfl, rfl, (scan_frame_place hs).2⟩
  · cases h

theorem next_of_front_broken {fault : Fault} (h : front d.limit d.unread = .broken fault) :
    d.next = (.error fault, d.clear) := by
  rw [front_unread] at h
  unfold next
  rcases hs : scan d.limit d.buffer d.used with _ | _ | _ <;> rw [hs] at h
  · cases h
  · cases h
  · rw [Front.broken.inj h]

variable {d' : Decoder}

theorem front_of_next_some {payload : List UInt8} (h : d.next = (.ok (some payload), d')) :
    front d.limit d.unread = .frame payload d'.unread ∧ d'.limit = d.limit ∧ d'.Sound := by
  unfold next at h
  rw [front_unread]
  rcases hs : scan d.limit d.buffer d.used with start | ⟨payload', stop⟩ | fault <;>
    rw [hs] at h <;> cases h
  exact ⟨rfl, rfl, (scan_frame_place hs).2⟩

theorem front_of_next_none (hd : d.Sound) (h : d.next = (.ok none, d')) :
    front d.limit d.unread = .waiting d'.unread ∧ d'.limit = d.limit ∧ d'.Sound := by
  unfold next at h
  rw [front_unread]
  rcases hs : scan d.limit d.buffer d.used with start | ⟨payload, stop⟩ | fault <;>
    rw [hs] at h <;> cases h
  have hle := scan_waiting_place hs
  have hsound : start ≤ d.buffer.size := by
    have : d.used ≤ d.buffer.size := hd
    omega
  exact ⟨rfl, rfl, hsound⟩

theorem front_of_next_error {fault : Fault} (h : d.next = (.error fault, d')) :
    front d.limit d.unread = .broken fault ∧ d'.unread = [] := by
  unfold next at h
  rw [front_unread]
  rcases hs : scan d.limit d.buffer d.used with start | ⟨payload, stop⟩ | fault' <;>
    rw [hs] at h <;> cases h
  exact ⟨rfl, rfl⟩

end Decoder

/-! ## More bytes -/

theorem headerBlock_append_of_ok {limit : Nat} {length told : Option Nat}
    {input rest : List UInt8} (h : headerBlock limit length input = .ok (some (told, rest)))
    (more : List UInt8) :
    headerBlock limit length (input ++ more) = .ok (some (told, rest ++ more)) := by
  fun_induction headerBlock limit length input with
  | case1 | case2 => cases h
  | case3 length input line after hs hlt hl hd =>
    cases h
    exact headerBlock_of_end (splitLine_append hs more) hl hd
  | case4 => cases h
  | case5 length input line after hs hlt hl told' hd hf ih =>
    rw [headerBlock_of_line (splitLine_append hs more) hl hd, hf]
    exact ih h
  | case6 => cases h

/-- A fault in the headers stays when more bytes arrive, unless it is that a line goes on for too
long: the line may end after all. -/
theorem headerBlock_append_of_error {limit : Nat} {length : Option Nat} {input : List UInt8}
    {fault : Fault} (h : headerBlock limit length input = .error fault)
    (hf : fault ≠ .malformed .lineTooLong) (more : List UInt8) :
    headerBlock limit length (input ++ more) = .error fault := by
  fun_induction headerBlock limit length input with
  | case1 =>
    cases h
    exact absurd rfl hf
  | case2 => cases h
  | case3 => cases h
  | case4 length input line after hs hlt hl fault' hd hf' =>
    cases h
    rw [headerBlock_of_line (splitLine_append hs more) hl hd, hf']
  | case5 length input line after hs hlt hl told' hd hf' ih =>
    rw [headerBlock_of_line (splitLine_append hs more) hl hd, hf']
    exact ih h
  | case6 length input line after hs hlt hl =>
    cases h
    exact headerBlock_of_bare (splitLine_append hs more) hl

theorem mem_of_headerBlock {limit : Nat} {length : Option Nat} {input : List UInt8}
    (h1 : headerBlock limit length input ≠ .ok none)
    (h2 : headerBlock limit length input ≠ .error (.malformed .lineTooLong)) : 10 ∈ input := by
  by_contra hn
  rw [headerBlock_of_none (splitLine_eq_none_iff.2 hn)] at h1 h2
  split_ifs at h1 h2
  · exact h2 rfl
  · exact h1 rfl

theorem eq_dropEmptyLines_of_front_waiting {limit : Nat} {input left : List UInt8}
    (h : front limit input = .waiting left) : left = dropEmptyLines input := by
  unfold front at h
  dsimp only at h
  split at h
  · cases h
  · exact (Front.waiting.inj h).symm
  · cases h
  · split_ifs at h
    exact (Front.waiting.inj h).symm

/-- Bytes that may be the beginning of a frame can be put before what arrives later. -/
theorem front_append_of_waiting {limit : Nat} {input left : List UInt8}
    (h : front limit input = .waiting left) (more : List UInt8) :
    front limit (input ++ more) = front limit (left ++ more) := by
  unfold front
  rw [eq_dropEmptyLines_of_front_waiting h, dropEmptyLines_append input more]

theorem front_append_of_frame {limit : Nat} {input payload rest : List UInt8}
    (h : front limit input = .frame payload rest) (more : List UInt8) :
    front limit (input ++ more) = .frame payload (rest ++ more) := by
  unfold front at h ⊢
  dsimp only at h ⊢
  rcases hh : headerBlock limit none (dropEmptyLines input) with fault | _ | ⟨_ | n, after⟩ <;>
    rw [hh] at h <;> dsimp only at h
  · cases h
  · cases h
  · cases h
  · have hm := mem_of_headerBlock (by rw [hh]; simp) (by rw [hh]; simp)
    rw [dropEmptyLines_append_of_mem hm, headerBlock_append_of_ok hh]
    split_ifs at h with hn
    obtain ⟨rfl, rfl⟩ := Front.frame.inj h
    have hle : n ≤ after.length := Nat.le_of_not_lt hn
    dsimp only
    rw [if_neg (by simp only [List.length_append]; omega),
      List.take_append_of_le_length hle, List.drop_append_of_le_length hle]

theorem front_append_of_broken {limit : Nat} {input : List UInt8} {fault : Fault}
    (h : front limit input = .broken fault) (hf : fault ≠ .malformed .lineTooLong)
    (more : List UInt8) : front limit (input ++ more) = .broken fault := by
  unfold front at h ⊢
  dsimp only at h ⊢
  rcases hh : headerBlock limit none (dropEmptyLines input) with fault' | _ | ⟨_ | n, after⟩ <;>
    rw [hh] at h <;> dsimp only at h
  · cases h
    have hm := mem_of_headerBlock (by rw [hh]; simp) (by rw [hh]; simpa using hf)
    rw [dropEmptyLines_append_of_mem hm, headerBlock_append_of_error hh hf]
  · cases h
  · cases h
    have hm := mem_of_headerBlock (by rw [hh]; simp) (by rw [hh]; simp)
    rw [dropEmptyLines_append_of_mem hm, headerBlock_append_of_ok hh]
  · split_ifs at h

end PeerRpc.Frame
