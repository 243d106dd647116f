import PeerRpc.Proofs.Frame.Chunking
import PeerRpc.Proofs.Frame.Grammar

/-!
# Header lines that are too long

The decoder complains about the length of a header line only as long as the end of the line has not
arrived: a piece that brings the end along hides how long the line is. Whether a line is refused
therefore depends on where the stream is cut (`Overrun`). Bytes are fed here in pieces, with all
payloads that are complete taken out in between (`Decoder.consume`).

* `refused_iff_cut_inside`: a line is refused for its length exactly if some piece ends inside it
  after too many of its bytes. With pieces of bounded size no line escapes that is longer than the
  limit by more than this size.
-/

namespace PeerRpc.Frame

open Frame.Field (AllFit lines)

/-! ## Where a header line is due -/

/-- Bytes behind which a header line is due: the frames of some payloads, then perhaps empty lines
and the first lines of another header. -/
inductive LineDue (limit : Nat) : List (List UInt8) → List UInt8 → Prop
  | header (n : Nat) (fs : List Field) (h : AllFit limit fs) :
    LineDue limit [] (emptyLines n ++ lines fs)
  | frame {payload first rest : List UInt8} {payloads : List (List UInt8)}
    (h : Begins limit first payload []) (hrest : LineDue limit payloads rest) :
    LineDue limit (payload :: payloads) (first ++ rest)

/-- Some bytes hold the frames of payloads and stop inside a header line, of which there are too many
bytes already. -/
def Overrun (limit : Nat) (payloads : List (List UInt8)) (input : List UInt8) : Prop :=
  ∃ before line, input = before ++ line ∧ LineDue limit payloads before ∧ 10 ∉ line ∧
    maxHeaderLine < line.length

theorem Begins.append {limit : Nat} {input payload rest : List UInt8}
    (h : Begins limit input payload rest) (more : List UInt8) :
    Begins limit (input ++ more) payload (rest ++ more) := by
  obtain ⟨n, fs, last, rfl, hfit, hlast, hlength⟩ := h
  exact ⟨n, fs, last, by simp only [List.append_assoc], hfit, hlast, hlength⟩

/-- A frame at the front of some bytes stands there by itself. -/
theorem Begins.exists_eq_append {limit : Nat} {input payload rest : List UInt8}
    (h : Begins limit input payload rest) :
    ∃ first, input = first ++ rest ∧ Begins limit first payload [] := by
  obtain ⟨n, fs, last, rfl, hfit, hlast, hlength⟩ := h
  exact ⟨_, rfl, n, fs, last, by rw [List.append_nil], hfit, hlast, hlength⟩

theorem Delivery.after_eq_iff {payload : List UInt8} {payloads : List (List UInt8)}
    {fault : Option Fault} {unread : List UInt8} {o : Delivery} :
    o.after payload = { payloads, fault, unread } ↔
      ∃ more, payloads = payload :: more ∧ o = { payloads := more, fault, unread } := by
  cases o
  constructor
  · intro h
    cases h
    exact ⟨_, rfl, rfl⟩
  · rintro ⟨more, rfl, h⟩
    rw [h]
    rfl

section TooLong

variable {limit : Nat}

theorem headerBlock_eq_tooLong_iff {before : Option Nat} {input : List UInt8} :
    headerBlock limit before input = .error (.malformed .lineTooLong) ↔
      ∃ fs line, input = lines fs ++ line ∧ AllFit limit fs ∧ 10 ∉ line ∧
        maxHeaderLine < line.length := by
  constructor
  · intro h
    fun_induction headerBlock limit before input with
    | case1 before input hs hlong =>
      exact ⟨[], input, rfl, List.forall_mem_nil _, splitLine_eq_none_iff.1 hs, hlong⟩
    | case2 | case3 => cases h
    | case4 before input line rest hs hlt hl fault hd hf =>
      cases h
      exact absurd hf (lengthOfLine_ne_lineTooLong limit _)
    | case5 before input line rest hs hlt hl told hd hf ih =>
      obtain ⟨hinput, hfeed⟩ := eq_of_splitLine hs hl
      obtain ⟨f, hline, hfits, -⟩ := Field.lengthOfLine_eq_ok hf hfeed
      obtain ⟨fs, line', rfl, hall, hrest⟩ := ih h
      refine ⟨f :: fs, line', ?_, Field.allFit_cons.2 ⟨hfits, hall⟩, hrest⟩
      rw [hinput, hline, Field.lines_cons, List.append_assoc, List.append_assoc]
    | case6 => cases h
  · rintro ⟨fs, line, rfl, hall, hfeed, hlong⟩
    rw [headerBlock_lines hall]
    exact (headerBlock_of_none (splitLine_eq_none_iff.2 hfeed)).trans (if_pos hlong)

/-- No empty line stands at the front of bytes without a line feed. -/
theorem dropEmptyLines_of_notMem {input : List UInt8} (h : 10 ∉ input) :
    dropEmptyLines input = input := by
  fun_induction dropEmptyLines input with
  | case1 a b rest hab ih =>
    simp only [Bool.and_eq_true, decide_eq_true_eq] at hab
    exact absurd (hab.2 ▸ List.mem_cons_of_mem a List.mem_cons_self) h
  | case2 | case3 => rfl

/-- No empty line stands at the front of header lines, or of the beginning of one. -/
theorem dropEmptyLines_lines_append (fs : List Field) {line : List UInt8} (h : 10 ∉ line) :
    dropEmptyLines (lines fs ++ line) = lines fs ++ line := by
  cases fs with
  | nil => exact dropEmptyLines_of_notMem h
  | cons f fs => exact dropEmptyLines_lines_cons f fs line

theorem front_eq_tooLong_iff {input : List UInt8} :
    front limit input = .broken (.malformed .lineTooLong) ↔ Overrun limit [] input := by
  have hfront : front limit input = .broken (.malformed .lineTooLong) ↔
      headerBlock limit none (dropEmptyLines input) = .error (.malformed .lineTooLong) := by
    unfold front
    dsimp only
    rcases headerBlock limit none (dropEmptyLines input) with fault | _ | ⟨_ | length, after⟩
    · simp
    · simp
    · simp
    · dsimp only
      split_ifs <;> simp
  rw [hfront, headerBlock_eq_tooLong_iff]
  constructor
  · rintro ⟨fs, line, hdrop, hall, hline⟩
    obtain ⟨n, hn⟩ := exists_emptyLines input
    exact ⟨_, line, by rw [hn, hdrop, List.append_assoc], .header n fs hall, hline⟩
  · rintro ⟨_, line, rfl, ⟨n, fs, hall⟩, hfeed, hlong⟩
    refine ⟨fs, line, ?_, hall, hfeed, hlong⟩
    rw [List.append_assoc, dropEmptyLines_emptyLines, dropEmptyLines_lines_append fs hfeed]

/-- After a fault nothing is left. -/
theorem frames_of_fault {input : List UInt8} {fault : Fault}
    (h : (frames limit input).fault = some fault) :
    frames limit input = { payloads := (frames limit input).payloads, fault := some fault } := by
  fun_induction frames limit input with
  | case1 => cases h
  | case2 input payload rest hf hlt ih => exact congrArg (Delivery.after payload) (ih h)
  | case3 => rw [Option.some.inj h]

/-- A line is complained about for its length exactly if the bytes stop inside it. -/
theorem frames_eq_tooLong_iff {payloads : List (List UInt8)} {input : List UInt8} :
    frames limit input = { payloads, fault := some (.malformed .lineTooLong) } ↔
      Overrun limit payloads input := by
  constructor
  · intro h
    fun_induction frames limit input generalizing payloads with
    | case1 => cases h
    | case2 input payload rest hf hlt ih =>
      obtain ⟨payloads, rfl, hrest⟩ := Delivery.after_eq_iff.1 h
      obtain ⟨before, line, rfl, hdue, hline⟩ := ih hrest
      obtain ⟨first, rfl, hfirst⟩ := (front_eq_frame_iff.1 hf).exists_eq_append
      exact ⟨first ++ before, line, (List.append_assoc _ _ _).symm, .frame hfirst hdue, hline⟩
    | case3 input fault hf =>
      cases h
      exact front_eq_tooLong_iff.1 hf
  · rintro ⟨before, line, rfl, hdue, hline⟩
    induction hdue with
    | header n fs hall =>
      exact frames_of_broken (front_eq_tooLong_iff.2 ⟨_, line, rfl, .header n fs hall, hline⟩)
    | @frame _ first rest _ hfirst hdue ih =>
      rw [List.append_assoc, frames_of_frame (front_eq_frame_iff.2 (hfirst.append (rest ++ line))),
        List.nil_append, ih]
      rfl

end TooLong

/-! ## Pieces -/

namespace Decoder

/-- Asks for payloads, and feeds the next piece whenever there are none. The first fault ends
everything. -/
def consume (d : Decoder) (pieces : List (List UInt8)) : Delivery :=
  match h : d.next with
  | (.ok (some payload), d') =>
    have := next_unread_length h
    (consume d' pieces).after payload
  | (.ok none, d') =>
    match pieces with
    | [] => { unread := d'.unread }
    | piece :: pieces => consume (d'.feed piece) pieces
  | (.error fault, d') => { fault := some fault, unread := d'.unread }
termination_by (pieces.length, d.unread.length)

variable {d d' : Decoder} {pieces : List (List UInt8)}

/-- What comes out is what some of the pieces hold, looked at all at once, and all of them do unless
a line is complained about for its length. -/
theorem consume_eq_frames (hd : d.Sound) (pieces : List (List UInt8)) :
    ∃ early, early <+: pieces ∧ d.consume pieces = frames d.limit (d.unread ++ early.flatten) ∧
      ((d.consume pieces).fault ≠ some (.malformed .lineTooLong) → early = pieces) := by
  fun_induction consume d pieces with
  | case1 d pieces payload d' hnext hlt ih =>
    obtain ⟨hfront, hl, hd'⟩ := front_of_next_some hnext
    obtain ⟨early, hearly, heq, hall⟩ := ih hd'
    refine ⟨early, hearly, ?_, hall⟩
    rw [frames_of_frame (front_append_of_frame hfront _), heq, hl]
  | case2 d d' hnext =>
    obtain ⟨hfront, -⟩ := front_of_next_none hd hnext
    refine ⟨[], List.nil_prefix, ?_, fun _ => rfl⟩
    rw [List.flatten_nil, List.append_nil, frames_of_waiting hfront]
  | case3 d d' hnext piece pieces ih =>
    obtain ⟨hfront, hl, hd'⟩ := front_of_next_none hd hnext
    obtain ⟨early, hearly, heq, hall⟩ := ih (sound_feed hd' piece)
    refine ⟨piece :: early, List.cons_prefix_cons.2 ⟨rfl, hearly⟩, ?_, fun h => by rw [hall h]⟩
    rw [heq, limit_feed, hl, unread_feed hd', List.flatten_cons, List.append_assoc]
    exact frames_congr (front_append_of_waiting hfront _).symm
  | case4 d pieces fault d' hnext =>
    obtain ⟨hfront, hunread⟩ := front_of_next_error hnext
    rw [hunread]
    by_cases hfault : fault = .malformed .lineTooLong
    · refine ⟨[], List.nil_prefix, ?_, fun h => absurd (congrArg some hfault) h⟩
      rw [List.flatten_nil, List.append_nil, frames_of_broken hfront]
    · refine ⟨pieces, List.prefix_rfl, ?_, fun _ => rfl⟩
      rw [frames_of_broken (front_append_of_broken hfront hfault _)]

/-- Pieces that stop inside a line that is too long by then are complained about at that line at the
latest. -/
theorem consume_of_overrun {payloads early : List (List UInt8)} (hd : d.Sound)
    (hearly : early <+: pieces) (h : Overrun d.limit payloads (d.unread ++ early.flatten)) :
    (d.consume pieces).fault = some (.malformed .lineTooLong) ∧
      (d.consume pieces).payloads <+: payloads := by
  rw [← frames_eq_tooLong_iff] at h
  fun_induction consume d pieces generalizing payloads early with
  | case1 d pieces payload d' hnext hlt ih =>
    obtain ⟨hfront, hl, hd'⟩ := front_of_next_some hnext
    rw [frames_of_frame (front_append_of_frame hfront _), Delivery.after_eq_iff] at h
    obtain ⟨more, rfl, hmore⟩ := h
    obtain ⟨hfault, hpayloads⟩ := ih hd' hearly (hl ▸ hmore)
    exact ⟨hfault, List.cons_prefix_cons.2 ⟨rfl, hpayloads⟩⟩
  | case2 d d' hnext =>
    obtain ⟨hfront, -⟩ := front_of_next_none hd hnext
    obtain rfl := List.prefix_nil.1 hearly
    rw [List.flatten_nil, List.append_nil, frames_of_waiting hfront] at h
    cases h
  | case3 d d' hnext piece pieces ih =>
    obtain ⟨hfront, hl, hd'⟩ := front_of_next_none hd hnext
    cases early with
    | nil =>
      rw [List.flatten_nil, List.append_nil, frames_of_waiting hfront] at h
      cases h
    | cons piece' early =>
      obtain ⟨rfl, hearly'⟩ := List.cons_prefix_cons.1 hearly
      apply ih (sound_feed hd' _) hearly'
      rw [limit_feed, hl, unread_feed hd', List.append_assoc, ← List.flatten_cons, ← h]
      exact frames_congr (front_append_of_waiting hfront _).symm
  | case4 d pieces fault d' hnext =>
    obtain ⟨hfront, -⟩ := front_of_next_error hnext
    by_cases hfault : fault = .malformed .lineTooLong
    · exact ⟨congrArg some hfault, List.nil_prefix⟩
    · rw [frames_of_broken (front_append_of_broken hfront hfault _)] at h
      cases h
      exact absurd rfl hfault

end Decoder

/-- Pieces of a bounded size can be told off at any length, up to the size of one of them. -/
theorem exists_prefix_flatten {pieces : List (List UInt8)} {m n : Nat}
    (hn : ∀ piece ∈ pieces, piece.length ≤ n) (hm : m < pieces.flatten.length) :
    ∃ early, early <+: pieces ∧ m < early.flatten.length ∧ early.flatten.length ≤ m + n := by
  induction pieces generalizing m with
  | nil => exact absurd hm (Nat.not_lt_zero m)
  | cons piece pieces ih =>
    have hpiece := hn piece List.mem_cons_self
    by_cases hlt : m < piece.length
    · refine ⟨[piece], List.cons_prefix_cons.2 ⟨rfl, List.nil_prefix⟩, ?_⟩
      simp only [List.flatten_cons, List.flatten_nil, List.append_nil]
      omega
    · rw [List.flatten_cons, List.length_append] at hm
      obtain ⟨early, hearly, hlong, hshort⟩ := ih (m := m - piece.length)
        (fun p hp => hn p (List.mem_cons_of_mem piece hp)) (by omega)
      refine ⟨piece :: early, List.cons_prefix_cons.2 ⟨rfl, hearly⟩, ?_⟩
      simp only [List.flatten_cons, List.length_append]
      omega

/-- Some pieces stop inside a line that is longer than the limit by the size of a piece. -/
theorem exists_overrun {limit n : Nat} {pieces payloads : List (List UInt8)}
    {before line after : List UInt8} (hn : ∀ piece ∈ pieces, piece.length ≤ n)
    (hbytes : pieces.flatten = before ++ line ++ 10 :: after) (hdue : LineDue limit payloads before)
    (hfeed : 10 ∉ line) (hlong : maxHeaderLine + n ≤ line.length) :
    ∃ early, early <+: pieces ∧ Overrun limit payloads early.flatten := by
  have hlength := congrArg List.length hbytes
  simp only [List.length_append, List.length_cons] at hlength
  obtain ⟨early, hearly, hmore, hless⟩ :=
    exists_prefix_flatten (m := before.length + maxHeaderLine) hn (by omega)
  refine ⟨early, hearly, ?_⟩
  obtain ⟨late, rfl⟩ := hearly
  rw [List.flatten_append] at hbytes
  have hstop : early.flatten <+: before ++ line := by
    apply List.prefix_of_prefix_length_le ⟨_, hbytes⟩ (List.prefix_append _ _)
    rw [List.length_append]
    omega
  obtain ⟨part, hpart⟩ : before <+: early.flatten := by
    refine List.prefix_of_prefix_length_le (List.prefix_append before line) hstop ?_
    omega
  rw [← hpart] at hstop hmore ⊢
  refine ⟨before, part, rfl, hdue, fun h => hfeed ?_, ?_⟩
  · exact ((List.prefix_append_right_inj before).1 hstop).subset h
  · rw [List.length_append] at hmore
    omega

/-- Bytes are fed in pieces, and all payloads that are complete are taken out after each. The decoder
complains about the length of a line exactly if some piece ends inside a header line of which too
many bytes have been fed by then; otherwise what comes out is what all the bytes hold, looked at at
once. If no piece is longer than some size, each header line that is longer than the limit by this
size ends the decoding, there or before. -/
theorem refused_iff_cut_inside (limit : Nat) (pieces : List (List UInt8)) :
    (((Decoder.empty limit).consume pieces).fault = some (.malformed .lineTooLong) ↔
      ∃ early payloads, early <+: pieces ∧ Overrun limit payloads early.flatten) ∧
    (((Decoder.empty limit).consume pieces).fault ≠ some (.malformed .lineTooLong) →
      (Decoder.empty limit).consume pieces = frames limit pieces.flatten) ∧
    ∀ n payloads before line after, (∀ piece ∈ pieces, piece.length ≤ n) →
      pieces.flatten = before ++ line ++ 10 :: after → LineDue limit payloads before →
      10 ∉ line → maxHeaderLine + n ≤ line.length →
      ((Decoder.empty limit).consume pieces).fault = some (.malformed .lineTooLong) ∧
        ((Decoder.empty limit).consume pieces).payloads <+: payloads := by
  have hd := Decoder.sound_empty limit
  obtain ⟨early, hearly, heq, hall⟩ := Decoder.consume_eq_frames hd pieces
  rw [Decoder.limit_empty, Decoder.unread_empty, List.nil_append] at heq
  refine ⟨⟨fun h => ?_, fun ⟨early, payloads, hearly, h⟩ => ?_⟩, fun h => ?_, ?_⟩
  · rw [heq] at h
    exact ⟨early, _, hearly, frames_eq_tooLong_iff.1 (frames_of_fault h)⟩
  · exact (Decoder.consume_of_overrun hd hearly h).1
  · rw [heq, hall h]
  · intro n payloads before line after hn hbytes hdue hfeed hlong
    obtain ⟨early, hearly, h⟩ := exists_overrun hn hbytes hdue hfeed hlong
    exact Decoder.consume_of_overrun hd hearly h

/-- A line of one byte more than the limit is fed byte by byte. -/
theorem refused_byte_by_byte :
    let line : List UInt8 := List.replicate (maxHeaderLine + 1) 97
    let pieces := (line ++ [10]).map fun b => [b]
    pieces.flatten = line ++ [10] ∧
      ((Decoder.empty 9).consume pieces).fault = some (.malformed .lineTooLong) := by
  intro line pieces
  have hn : ∀ piece ∈ pieces, piece.length ≤ 1 := by
    intro piece hpiece
    obtain ⟨b, -, rfl⟩ := List.mem_map.1 hpiece
    exact le_rfl
  have hbytes : pieces.flatten = line ++ [10] := by
    rw [← List.flatMap_def, List.flatMap_singleton']
  have hfeed : 10 ∉ line := fun h => absurd (List.eq_of_mem_replicate h) (by decide)
  have hdue : LineDue 9 [] [] := .header 0 [] (List.forall_mem_nil _)
  have hlong : maxHeaderLine + 1 ≤ line.length := by rw [List.length_replicate]
  exact ⟨hbytes, ((refused_iff_cut_inside 9 pieces).2.2 1 [] [] line [] hn hbytes hdue hfeed hlong).1⟩

theorem notMem_cons_replicate {a b c : Char} (ha : c ≠ a) (hb : c ≠ b) (m : Nat) :
    c ∉ a :: List.replicate m b := by
  rw [List.mem_cons, not_or]
  exact ⟨ha, fun h => hb (List.eq_of_mem_replicate h)⟩

/-- A header field with a value of some length that says nothing. -/
def Field.filler (m : Nat) : Field where
  name := ['X']
  value := List.replicate m 'a'
  colon_notMem := by decide
  return_notMem := notMem_cons_replicate (by decide) (by decide) m
  feed_notMem := notMem_cons_replicate (by decide) (by decide) m

theorem Field.length_bytes_filler (m : Nat) : (filler m).bytes.length = m + 2 := by
  have hascii : ∀ c ∈ 'X' :: ':' :: List.replicate m 'a', c.toNat < 128 := by
    simp
  show (Text.utf8OfChars ('X' :: ':' :: List.replicate m 'a')).length = _
  rw [Text.utf8OfChars_of_lt hascii]
  simp

theorem Field.isLength_filler (m : Nat) : (filler m).isLength = false := by
  have hname : (Text.trimChars ['X']).map Char.toLower ≠ "Content-Length".toList.map Char.toLower := by
    decide
  exact decide_eq_false hname

/-- A header field that makes a line longer than the limit. -/
def longField : Field where
  name := ['X']
  value := List.replicate maxHeaderLine 'a'
  colon_notMem := by decide
  return_notMem := by simp
  feed_notMem := by simp

/-- The header field that tells the length of an empty payload. -/
def emptyField : Field where
  name := "Content-Length".toList
  value := [' ', '0']
  colon_notMem := by decide
  return_notMem := by decide
  feed_notMem := by decide

theorem length_bytes_longField : longField.bytes.length = maxHeaderLine + 2 :=
  Field.length_bytes_filler maxHeaderLine

theorem isLength_longField : longField.isLength = false :=
  Field.isLength_filler maxHeaderLine

theorem numeral_emptyField : emptyField.numeral = ['0'] := by
  decide

theorem fits_emptyField : emptyField.Fits 9 where
  ne_nil := by decide
  digits := by
    intro c hc
    rw [numeral_emptyField] at hc
    rw [List.mem_singleton.1 hc]
    decide
  word := by decide
  within := by decide

/-- A header whose first line is too long stands in front of an empty payload. -/
theorem begins_longField :
    Begins 9 (lines [longField, emptyField] ++ lineEnd) [] [] := by
  refine ⟨0, [longField, emptyField], emptyField, ?_, ?_, ?_, rfl⟩
  · rw [emptyLines, List.replicate_zero, List.flatten_nil, List.nil_append, List.append_nil,
      List.append_nil]
  · rw [Field.allFit_cons, Field.allFit_cons, isLength_longField]
    exact ⟨fun h => absurd h Bool.false_ne_true, fun _ => fits_emptyField, List.forall_mem_nil _⟩
  · rw [List.filter_cons_of_neg (by simp [isLength_longField]), List.filter_cons_of_pos (by decide)]
    rfl

/-- A header line that is too long is taken if its end arrives in the same piece. -/
theorem long_line_taken :
    ¬∀ limit pieces payloads before line after, List.flatten pieces = before ++ line ++ 10 :: after →
      LineDue limit payloads before → 10 ∉ line → maxHeaderLine < line.length →
      ∃ m, ((Decoder.empty limit).consume pieces).fault = some (.malformed m) := by
  intro h
  let piece := lines [longField, emptyField] ++ lineEnd
  have hpiece : (frames 9 piece).fault = none := by
    rw [frames_of_frame (front_eq_frame_iff.2 begins_longField), Delivery.fault_after]
    decide +kernel
  have hempty : (frames 9 []).fault = none := by
    decide +kernel
  have hfeed : 10 ∉ longField.bytes ++ [13] := by
    rw [List.mem_append, not_or]
    exact ⟨longField.feed_notMem_bytes, by decide⟩
  have hlong : maxHeaderLine < (longField.bytes ++ [13]).length := by
    rw [List.length_append, length_bytes_longField]
    omega
  obtain ⟨m, hm⟩ := h 9 [piece] [] [] (longField.bytes ++ [13])
    (emptyField.bytes ++ (lineEnd ++ lineEnd)) (by simp [piece, lines, lineEnd])
    (.header 0 [] (List.forall_mem_nil _)) hfeed hlong
  -- a fault would have to be one of the bytes fed before it, and neither none nor all have one
  obtain ⟨early, hearly, heq, -⟩ := Decoder.consume_eq_frames (Decoder.sound_empty 9) [piece]
  rw [heq, Decoder.limit_empty, Decoder.unread_empty, List.nil_append] at hm
  rcases List.prefix_cons_iff.1 hearly with rfl | ⟨late, rfl, hlate⟩
  · rw [List.flatten_nil, hempty] at hm
    cases hm
  · obtain rfl := List.prefix_nil.1 hlate
    rw [List.flatten_singleton, hpiece] at hm
    cases hm

end PeerRpc.Frame
