import PeerRpc.Proofs.Frame.Unread

/-!
# The decoder with every place checked

A decoder is full of places: where its unread bytes begin, where a line or a payload ends, how many
bytes are left behind a place. Here it is written once more for a machine that has numbers of 64 bits
only, that stops when it is asked for a byte or a piece outside of a buffer, and that has room for
buffers up to some size (`Checked`).

* `Checked.drain_eq` and `Checked.feed_eq`: on a sound decoder the machine does what the decoder does.
  It is never asked for anything out of range; what it may lack is the room for bytes that are fed.
-/

namespace PeerRpc.Frame

/-- Why a machine stops. -/
inductive Halt where
  /-- A place that is not in the buffer, or a number that is not one of 64 bits. -/
  | outOfRange
  /-- There is no room for so many bytes. -/
  | outOfRoom
deriving DecidableEq

/-- A computation of a machine that checks what it does. -/
abbrev Checked := Except Halt

namespace Checked

/-! ## Numbers and places -/

/-- A sum, if it fits 64 bits. -/
def plus (a b : Nat) : Checked Nat :=
  if a + b < UInt64.size then .ok (a + b) else .error .outOfRange

/-- A difference, if it is not negative. -/
def minus (a b : Nat) : Checked Nat :=
  if b ≤ a then .ok (a - b) else .error .outOfRange

/-- The byte at a place, if it is one of the buffer's. -/
def byteAt (buffer : Array UInt8) (i : Nat) : Checked UInt8 :=
  if h : i < buffer.size then .ok buffer[i] else .error .outOfRange

/-- The bytes from a place up to another one. -/
def slice (buffer : Array UInt8) (i j : Nat) : Checked (List UInt8) :=
  if i ≤ j ∧ j ≤ buffer.size then .ok (buffer.extract i j).toList else .error .outOfRange

variable {a b i j : Nat} {buffer : Array UInt8}

theorem plus_eq (h : a + b < UInt64.size) : plus a b = .ok (a + b) := if_pos h

theorem minus_eq (h : b ≤ a) : minus a b = .ok (a - b) := if_pos h

theorem byteAt_eq (h : i < buffer.size) : byteAt buffer i = .ok buffer[i] := dif_pos h

theorem slice_eq (hi : i ≤ j) (hj : j ≤ buffer.size) :
    slice buffer i j = .ok (buffer.extract i j).toList := if_pos ⟨hi, hj⟩

theorem ok_of_bind {α β : Type} {x : Checked α} {f : α → Checked β} {b : β}
    (h : x >>= f = .ok b) : ∃ a, x = .ok a ∧ f a = .ok b := by
  cases x with
  | error halt => cases h
  | ok a => exact ⟨a, rfl, h⟩

theorem plus_ok {c : Nat} (h : plus a b = .ok c) : c = a + b := by
  unfold plus at h
  split_ifs at h
  exact (Except.ok.inj h).symm

theorem slice_ok {bytes : List UInt8} (h : slice buffer i j = .ok bytes) :
    i ≤ j ∧ j ≤ buffer.size ∧ bytes = (buffer.extract i j).toList := by
  unfold slice at h
  split_ifs at h with hij
  exact ⟨hij.1, hij.2, (Except.ok.inj h).symm⟩

/-! ## Lines -/

/-- What stands in a buffer up to the first line feed from a place on. -/
inductive Line where
  /-- There is no line feed; how many bytes are left. -/
  | unfinished (left : Nat)
  /-- There is no carriage return before the line feed. -/
  | bare
  /-- The bytes before the carriage return, and the place after the line feed. -/
  | whole (bytes : List UInt8) (next : Nat)

/-- Looks for the end of the line at a place. -/
def lineAt (buffer : Array UInt8) (pos : Nat) : Checked Line := do
  match (← slice buffer pos buffer.size).findIdx? (· = 10) with
  | none => return .unfinished (← minus buffer.size pos)
  | some offset =>
    let newline ← plus pos offset
    if newline = pos then return .bare
    let last ← minus newline 1
    if (← byteAt buffer last) ≠ 13 then return .bare
    let bytes ← slice buffer pos last
    return .whole bytes (← plus newline 1)

variable {pos after : Nat} {bytes : List UInt8}

/-- A whole line has at least its two last bytes, and the buffer holds them. -/
theorem lineAt_place (h : lineAt buffer pos = .ok (.whole bytes after)) :
    pos < after ∧ after ≤ buffer.size := by
  unfold lineAt at h
  obtain ⟨rest, hrest, h⟩ := ok_of_bind h
  obtain ⟨-, -, rfl⟩ := slice_ok hrest
  split at h
  · obtain ⟨left, -, h⟩ := ok_of_bind h
    cases h
  · rename_i offset hoffset
    obtain ⟨newline, hnewline, h⟩ := ok_of_bind h
    obtain rfl := plus_ok hnewline
    split_ifs at h with hpos
    · cases h
    obtain ⟨last, -, h⟩ := ok_of_bind h
    obtain ⟨byte, -, h⟩ := ok_of_bind h
    split_ifs at h
    · cases h
    obtain ⟨line, -, h⟩ := ok_of_bind h
    obtain ⟨stop, hstop, h⟩ := ok_of_bind h
    obtain rfl := plus_ok hstop
    obtain ⟨rfl, rfl⟩ := Line.whole.inj (Except.ok.inj h)
    have hlt := (List.findIdx?_eq_some_iff_getElem.1 hoffset).1
    simp only [Array.toList_extract, List.extract_eq_take_drop, List.length_take,
      List.length_drop, Array.length_toList] at hlt
    omega

theorem toList_extract_size (buffer : Array UInt8) (i : Nat) :
    (buffer.extract i buffer.size).toList = buffer.toList.drop i := by
  rw [Array.toList_extract, List.extract_eq_take_drop, List.take_of_length_le (by simp)]

theorem findIdx?_drop (buffer : Array UInt8) (i : Nat) :
    (buffer.toList.drop i).findIdx? (· = 10) = (lineFeed? buffer i).map (· - i) := by
  fun_induction lineFeed? buffer i with
  | case1 i hi hb =>
    rw [List.drop_eq_getElem_cons (by simpa using hi), List.findIdx?_cons,
      if_pos (by simpa using hb), Option.map_some, Nat.sub_self]
  | case2 i hi hb ih =>
    rw [List.drop_eq_getElem_cons (by simpa using hi), List.findIdx?_cons,
      if_neg (by simpa using hb), ih]
    cases hf : lineFeed? buffer (i + 1) with
    | none => rfl
    | some j =>
      have hj := lineFeed?_place hf
      simp only [Option.map_some, Option.some.injEq]
      omega
  | case3 i hi =>
    rw [List.drop_eq_nil_of_le (by simpa using hi)]
    rfl

theorem getLast?_extract (hij : i < j) (hj : j ≤ buffer.size) :
    (buffer.extract i j).toList.getLast? = some buffer[j - 1] := by
  rw [List.getLast?_eq_getElem?, Array.length_toList, Array.getElem?_toList,
    Array.getElem?_extract, Array.size_extract, Nat.min_eq_left hj, if_pos (by omega),
    show i + (j - i - 1) = j - 1 by omega, Array.getElem?_eq_getElem]

theorem dropLast_extract (hj : j ≤ buffer.size) :
    (buffer.extract i j).toList.dropLast = (buffer.extract i (j - 1)).toList := by
  simp only [List.dropLast_eq_take, Array.toList_extract, List.extract_eq_take_drop,
    List.take_take, List.length_take, List.length_drop, Array.length_toList]
  congr 1
  omega

/-- Within its buffer the machine finds the line that the decoder finds. -/
theorem lineAt_eq (hp : pos ≤ buffer.size) (hs : buffer.size < UInt64.size) :
    lineAt buffer pos = .ok (match lineFeed? buffer pos with
      | none => .unfinished (buffer.size - pos)
      | some j =>
        if (buffer.extract pos j).toList.getLast? = some 13 then
          .whole (buffer.extract pos j).toList.dropLast (j + 1)
        else .bare) := by
  unfold lineAt
  rw [slice_eq hp le_rfl, toList_extract_size]
  simp only [bind, Except.bind, pure, Except.pure]
  rw [findIdx?_drop]
  cases hf : lineFeed? buffer pos with
  | none =>
    dsimp only [Option.map_none]
    rw [minus_eq hp]
  | some j =>
    have hj := lineFeed?_place hf
    dsimp only [Option.map_some]
    rw [plus_eq (by omega), Nat.add_sub_cancel' hj.1]
    dsimp only
    by_cases hne : j = pos
    · subst hne
      have hempty : (buffer.extract j j).toList = [] := by simp
      rw [if_pos rfl, hempty, if_neg (by simp)]
    · rw [if_neg hne, minus_eq (by omega)]
      dsimp only
      rw [byteAt_eq (by omega)]
      dsimp only
      rw [getLast?_extract (by omega) (by omega), dropLast_extract (by omega)]
      by_cases hlast : buffer[j - 1] = 13
      · rw [if_neg (not_not.2 hlast), slice_eq (by omega) (by omega), if_pos (congrArg some hlast)]
        dsimp only
        rw [plus_eq (by omega)]
      · rw [if_pos hlast, if_neg (fun h => hlast (Option.some.inj h))]

theorem lineAt_of_none (hp : pos ≤ buffer.size) (hs : buffer.size < UInt64.size)
    (hl : lineFeed? buffer pos = none) :
    lineAt buffer pos = .ok (.unfinished (buffer.size - pos)) := by
  rw [lineAt_eq hp hs, hl]

theorem lineAt_of_whole (hp : pos ≤ buffer.size) (hs : buffer.size < UInt64.size)
    (hl : lineFeed? buffer pos = some j)
    (hlast : (buffer.extract pos j).toList.getLast? = some 13) :
    lineAt buffer pos = .ok (.whole (buffer.extract pos j).toList.dropLast (j + 1)) := by
  rw [lineAt_eq hp hs, hl]
  exact congrArg _ (if_pos hlast)

theorem lineAt_of_bare (hp : pos ≤ buffer.size) (hs : buffer.size < UInt64.size)
    (hl : lineFeed? buffer pos = some j)
    (hlast : (buffer.extract pos j).toList.getLast? ≠ some 13) :
    lineAt buffer pos = .ok .bare := by
  rw [lineAt_eq hp hs, hl]
  exact congrArg _ (if_neg hlast)

/-! ## Frames -/

/-- Takes the payload behind the headers, if all of it is there. -/
def finish (buffer : Array UInt8) (used pos : Nat) : Option Nat → Checked Scan
  | none => return .broken .lengthMissing
  | some length => do
    if (← minus buffer.size pos) < length then return .waiting used
    let stop ← plus pos length
    return .frame (← slice buffer pos stop) stop

/-- Reads the lines from a place on, in one loop for the empty lines before the headers and for the
headers. `used` is the place that is kept when there is no whole frame: an empty line before the
headers moves it. -/
def search (limit : Nat) (buffer : Array UInt8) (used pos : Nat) (told : Option Nat)
    (sawHeader : Bool) : Checked Scan :=
  match h : lineAt buffer pos with
  | .error halt => .error halt
  | .ok (.unfinished left) =>
    .ok (if maxHeaderLine < left then .broken (.malformed .lineTooLong) else .waiting used)
  | .ok .bare => .ok (.broken (.malformed .bareLineFeed))
  | .ok (.whole line next) =>
    have := lineAt_place h
    if line = [] then
      if sawHeader then finish buffer used next told
      else search limit buffer next next told false
    else
      match lengthOfLine limit line with
      | .error fault => .ok (.broken fault)
      | .ok length => search limit buffer used next (length.or told) true
termination_by buffer.size - pos

variable {limit used stop : Nat} {told : Option Nat} {sawHeader : Bool} {payload : List UInt8}

theorem finish_place (h : finish buffer used pos told = .ok (.frame payload stop)) :
    pos ≤ stop ∧ stop ≤ buffer.size := by
  cases told with
  | none => cases h
  | some length =>
    obtain ⟨left, -, h⟩ := ok_of_bind h
    split_ifs at h
    · cases h
    obtain ⟨place, -, h⟩ := ok_of_bind h
    obtain ⟨bytes, hslice, h⟩ := ok_of_bind h
    cases h
    exact ⟨(slice_ok hslice).1, (slice_ok hslice).2.1⟩

/-- A payload that is found ends behind the place where the search began. -/
theorem search_place
    (h : search limit buffer used pos told sawHeader = .ok (.frame payload stop)) :
    pos < stop ∧ stop ≤ buffer.size := by
  fun_induction search limit buffer used pos told sawHeader with
  | case1 => cases h
  | case2 => split_ifs at h <;> cases h
  | case3 => cases h
  | case4 used pos told next hplace =>
    have := finish_place h
    omega
  | case5 used pos told sawHeader next hplace hsaw _ ih =>
    have := ih h
    omega
  | case6 => cases h
  | case7 used pos told sawHeader line next hplace hline length hlength _ ih =>
    have := ih h
    omega

theorem search_eq {line : Line} :
    lineAt buffer pos = .ok line → search limit buffer used pos told sawHeader =
      match line with
      | .unfinished left =>
        .ok (if maxHeaderLine < left then .broken (.malformed .lineTooLong) else .waiting used)
      | .bare => .ok (.broken (.malformed .bareLineFeed))
      | .whole line next =>
        if line = [] then
          if sawHeader then finish buffer used next told
          else search limit buffer next next told false
        else
          match lengthOfLine limit line with
          | .error fault => .ok (.broken fault)
          | .ok length => search limit buffer used next (length.or told) true := by
  intro h
  rw [search.eq_def]
  split <;> rename_i h' <;> cases h.symm.trans h' <;> rfl

theorem finish_eq (hp : pos ≤ buffer.size) (hs : buffer.size < UInt64.size) :
    finish buffer used pos told = .ok (match told with
      | none => .broken .lengthMissing
      | some n =>
        if buffer.size - pos < n then .waiting used
        else .frame (buffer.extract pos (pos + n)).toList (pos + n)) := by
  cases told with
  | none => rfl
  | some n =>
    unfold finish
    rw [minus_eq hp]
    simp only [bind, Except.bind, pure, Except.pure]
    split_ifs with hn
    · rfl
    · rw [plus_eq (by omega)]
      dsimp only
      rw [slice_eq (by omega) (by omega)]

/-- Behind the first header the machine reads what the decoder reads. -/
theorem search_headers (hp : pos ≤ buffer.size) (hs : buffer.size < UInt64.size) :
    search limit buffer used pos told true =
      match headers limit buffer told pos with
      | .error fault => .ok (.broken fault)
      | .ok none => .ok (.waiting used)
      | .ok (some (told, j)) => finish buffer used j told := by
  fun_induction headers limit buffer told pos with
  | case1 told i hl hlong =>
    rw [search_eq (lineAt_of_none hp hs hl)]
    dsimp only
    rw [if_pos hlong]
  | case2 told i hl hshort =>
    rw [search_eq (lineAt_of_none hp hs hl)]
    dsimp only
    rw [if_neg hshort]
  | case3 told i j hl hplace line hlast hdrop =>
    rw [search_eq (lineAt_of_whole hp hs hl hlast)]
    dsimp only
    rw [if_pos hdrop]
    rfl
  | case4 told i j hl hplace line hlast fault hdrop hf =>
    rw [search_eq (lineAt_of_whole hp hs hl hlast)]
    dsimp only
    rw [if_neg hdrop, hf]
  | case5 told i j hl hplace line hlast length hdrop hf ih =>
    rw [search_eq (lineAt_of_whole hp hs hl hlast)]
    dsimp only
    rw [if_neg hdrop, hf]
    exact ih (by omega)
  | case6 told i j hl hplace line hlast => rw [search_eq (lineAt_of_bare hp hs hl hlast)]

theorem lineFeed?_byte (h : lineFeed? buffer i = some j) : buffer[j]? = some 10 := by
  fun_induction lineFeed? buffer i with
  | case1 i hi hb =>
    cases h
    rw [Array.getElem?_eq_getElem hi, hb]
  | case2 i hi hb ih => exact ih h
  | case3 => cases h

theorem lineFeed?_of_empty_line (h : i + 1 < buffer.size) (hr : buffer[i] = 13)
    (hf : buffer[i + 1] = 10) : lineFeed? buffer i = some (i + 1) := by
  rw [lineFeed?, dif_pos (by omega), if_neg (by rw [hr]; decide), lineFeed?, dif_pos h, if_pos hf]

/-- A line with nothing before its carriage return is an empty one. -/
theorem empty_line_of_dropLast (hl : lineFeed? buffer i = some j)
    (hlast : (buffer.extract i j).toList.getLast? = some 13)
    (hdrop : (buffer.extract i j).toList.dropLast = []) :
    buffer[i]? = some 13 ∧ buffer[i + 1]? = some 10 := by
  have hj := lineFeed?_place hl
  obtain hij | rfl := hj.1.lt_or_eq
  · rw [dropLast_extract hj.2.le] at hdrop
    have hlength := congrArg List.length hdrop
    simp only [Array.length_toList, Array.size_extract, List.length_nil] at hlength
    obtain rfl : j = i + 1 := by omega
    rw [getLast?_extract hij hj.2.le] at hlast
    exact ⟨by rw [Array.getElem?_eq_getElem]; exact hlast, lineFeed?_byte hl⟩
  · simp at hlast

/-- At a line that is not empty it does not matter whether a header has been read. -/
theorem search_of_not_empty (hp : pos ≤ buffer.size) (hs : buffer.size < UInt64.size)
    (hne : ¬(buffer[pos]? = some 13 ∧ buffer[pos + 1]? = some 10)) :
    search limit buffer used pos told false = search limit buffer used pos told true := by
  cases hl : lineFeed? buffer pos with
  | none =>
    have hline := lineAt_of_none hp hs hl
    rw [search_eq hline, search_eq hline]
  | some j =>
    by_cases hlast : (buffer.extract pos j).toList.getLast? = some 13
    · have hline := lineAt_of_whole hp hs hl hlast
      have hdrop : (buffer.extract pos j).toList.dropLast ≠ [] :=
        fun hdrop => hne (empty_line_of_dropLast hl hlast hdrop)
      rw [search_eq hline, search_eq hline]
      dsimp only
      rw [if_neg hdrop, if_neg hdrop]
    · have hline := lineAt_of_bare hp hs hl hlast
      rw [search_eq hline, search_eq hline]

/-- The machine's search is the decoder's. -/
theorem search_eq_scan (hp : pos ≤ buffer.size) (hs : buffer.size < UInt64.size) :
    search limit buffer pos pos none false = .ok (scan limit buffer pos) := by
  have hskip : search limit buffer pos pos none false =
      search limit buffer (skipEmptyLines buffer pos) (skipEmptyLines buffer pos) none true := by
    fun_induction skipEmptyLines buffer pos with
    | case1 i hi hb ih =>
      simp only [Bool.and_eq_true, decide_eq_true_eq] at hb
      have hlast : (buffer.extract i (i + 1)).toList.getLast? = some 13 := by
        rw [getLast?_extract (by omega) (by omega)]
        exact congrArg some hb.1
      have hdrop : (buffer.extract i (i + 1)).toList.dropLast = [] := by
        rw [dropLast_extract (by omega)]
        simp
      rw [search_eq (lineAt_of_whole hp hs (lineFeed?_of_empty_line hi hb.1 hb.2) hlast),
        ← ih (by omega)]
      dsimp only
      rw [if_pos hdrop]
      rfl
    | case2 i hi hb =>
      refine search_of_not_empty hp hs ?_
      simpa [hi, Nat.lt_of_succ_lt hi] using hb
    | case3 i hi =>
      have hnone : buffer[i + 1]? = none := Array.getElem?_eq_none (by omega)
      exact search_of_not_empty hp hs fun h => by simp [hnone] at h
  have hstart := (skipEmptyLines_place buffer pos).2
  rw [max_eq_right hp] at hstart
  rw [hskip, search_headers hstart hs, scan]
  rcases hh : headers limit buffer none (skipEmptyLines buffer pos) with fault | _ | ⟨told, j⟩
  · rfl
  · rfl
  · dsimp only
    rw [finish_eq (headers_place hh).2 hs]
    cases told <;> rfl

/-! ## The decoder -/

/-- Takes the next payload. A fault empties the buffer. -/
def next (d : Decoder) : Checked (Except Fault (Option (List UInt8)) × Decoder) := do
  match ← search d.limit d.buffer d.used d.used none false with
  | .waiting start => return (.ok none, { d with used := start })
  | .frame payload stop => return (.ok (some payload), { d with used := stop })
  | .broken fault => return (.error fault, d.clear)

theorem next_place {d d' : Decoder} {payload : List UInt8}
    (h : next d = .ok (.ok (some payload), d')) :
    d.used < d'.used ∧ d'.used ≤ d.buffer.size ∧ d'.buffer = d.buffer := by
  obtain ⟨found, hsearch, h⟩ := ok_of_bind h
  cases found with
  | waiting => cases h
  | frame payload stop =>
    cases h
    have hplace := search_place hsearch
    exact ⟨hplace.1, hplace.2, rfl⟩
  | broken => cases h

/-- Takes payloads until there are no more or there is a fault. -/
def drain (d : Decoder) : Checked (Except Fault (List (List UInt8)) × Decoder) :=
  match h : next d with
  | .error halt => .error halt
  | .ok (.ok (some payload), d') => do
    have := next_place h
    let (payloads, d'') ← drain d'
    return (payloads.map (payload :: ·), d'')
  | .ok (.ok none, d') => return (.ok [], d')
  | .ok (.error fault, d') => return (.error fault, d')
termination_by d.buffer.size - d.used
decreasing_by
  rw [this.2.2]
  omega

/-- Removes the used bytes if there are many of them. -/
def compact (d : Decoder) : Checked Decoder :=
  if compactionThreshold ≤ d.used then do
    let kept ← slice d.buffer d.used d.buffer.size
    return { d with buffer := kept.toArray, used := 0 }
  else return d

/-- Puts bytes behind those in the buffer. -/
def feed (room : UInt64) (d : Decoder) (bytes : List UInt8) : Checked Decoder := do
  let d ← compact d
  if d.buffer.size + bytes.length ≤ room.toNat then
    return { d with buffer := d.buffer ++ bytes.toArray }
  else throw .outOfRoom

/-- Takes bytes in, and then all payloads that are complete. -/
def decode (room : UInt64) (d : Decoder) (bytes : List UInt8) :
    Checked (Except Fault (List (List UInt8)) × Decoder) := do
  drain (← feed room d bytes)

/-- What is true of the decoders of a machine: the used bytes are some of the buffer's, and there is
room for all of these. -/
structure Kept (room : UInt64) (d : Decoder) : Prop where
  sound : d.Sound
  fits : d.buffer.size ≤ room.toNat

namespace Kept

variable {room : UInt64} {d : Decoder}

theorem word (h : Kept room d) : d.buffer.size < UInt64.size :=
  h.fits.trans_lt room.toNat_lt_size

theorem empty (room : UInt64) (limit : Nat) : Kept room (Decoder.empty limit) :=
  ⟨Decoder.sound_empty limit, Nat.zero_le _⟩

theorem clear (room : UInt64) (d : Decoder) : Kept room d.clear :=
  ⟨Nat.le_refl 0, Nat.zero_le _⟩

theorem next (h : Kept room d) : Kept room d.next.2 := by
  have hsound : d.used ≤ d.buffer.size := h.sound
  unfold Decoder.next
  cases hs : scan d.limit d.buffer d.used with
  | waiting start =>
    have := (scan_waiting_place hs).2
    exact ⟨show start ≤ d.buffer.size by omega, h.fits⟩
  | frame payload stop => exact ⟨(scan_frame_place hs).2, h.fits⟩
  | broken fault => exact .clear room d

theorem drain (h : Kept room d) : Kept room d.drain.2 := by
  fun_induction Decoder.drain d with
  | case1 d payload d' hnext hlt payloads d'' hdrain ih =>
    rw [hdrain] at ih
    exact ih (by simpa only [hnext] using h.next)
  | case2 d d' hnext => simpa only [hnext] using h.next
  | case3 d fault d' hnext => simpa only [hnext] using h.next

end Kept

variable {room : UInt64} {d : Decoder}

theorem next_eq (h : Kept room d) : next d = .ok d.next := by
  have hsound : d.used ≤ d.buffer.size := h.sound
  unfold next Decoder.next
  rw [search_eq_scan hsound h.word]
  cases scan d.limit d.buffer d.used <;> rfl

theorem drain_of_next {r : Except Fault (Option (List UInt8)) × Decoder} :
    next d = .ok r → drain d =
      match r with
      | (.ok (some payload), d') => (drain d').map fun p => (p.1.map (payload :: ·), p.2)
      | (.ok none, d') => .ok (.ok [], d')
      | (.error fault, d') => .ok (.error fault, d') := by
  intro h
  rw [drain.eq_def]
  split <;> rename_i h' <;> cases h.symm.trans h' <;> rfl

theorem drain_eq (h : Kept room d) : drain d = .ok d.drain := by
  have hnext := next_eq h
  fun_induction Decoder.drain d with
  | case1 d payload d' hn hlt payloads d'' hdrain ih =>
    have hd' : Kept room d' := by simpa only [hn] using h.next
    rw [drain_of_next (hnext.trans (congrArg _ hn))]
    dsimp only
    rw [ih hd' (next_eq hd'), hdrain]
    rfl
  | case2 d d' hn => rw [drain_of_next (hnext.trans (congrArg _ hn))]
  | case3 d fault d' hn => rw [drain_of_next (hnext.trans (congrArg _ hn))]

/-- A feed is refused only for want of room. -/
theorem feed_eq (h : d.Sound) (bytes : List UInt8) :
    feed room d bytes =
      if (d.feed bytes).buffer.size ≤ room.toNat then .ok (d.feed bytes)
      else .error .outOfRoom := by
  unfold feed compact Decoder.feed
  by_cases hmany : compactionThreshold ≤ d.used
  · rw [if_pos hmany, if_pos hmany, slice_eq h le_rfl]
    simp only [bind, Except.bind, pure, Except.pure, Array.toArray_toList, Array.size_append,
      List.size_toArray]
    rfl
  · rw [if_neg hmany, if_neg hmany]
    simp only [bind, Except.bind, pure, Except.pure, Array.size_append, List.size_toArray]
    rfl

end Checked

end PeerRpc.Frame
