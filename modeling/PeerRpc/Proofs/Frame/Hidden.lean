import PeerRpc.Proofs.Frame.Lines
import PeerRpc.Proofs.Frame.Truncation

/-!
# Payloads that a fault hides

A reader gives one payload at a time, so those in front of a fault come before it. A decoder that is
fed a piece and gives all payloads at once has either payloads to give or a fault: the payloads that
a piece completes in front of a fault are never seen.

* `hidden_by_fault`: both see the same payloads and the same fault, except for those that the piece
  with the fault completes before it.
-/

namespace PeerRpc.Frame

variable {limit : Nat}

/-! ## Lines within the limit -/

/-- Wherever some bytes stop, they do not stop inside a header line of which there are too many bytes
by then. -/
def LinesWithin (limit : Nat) (input : List UInt8) : Prop :=
  ∀ part payloads, part <+: input → ¬Overrun limit payloads part

namespace LinesWithin

variable {input part : List UInt8}

theorem of_length_le (limit : Nat) (h : input.length ≤ maxHeaderLine) : LinesWithin limit input := by
  rintro part payloads hpart ⟨before, line, rfl, -, -, hlong⟩
  have := hpart.length_le
  rw [List.length_append] at this
  omega

theorem of_isPrefix (h : LinesWithin limit input) (hp : part <+: input) : LinesWithin limit part :=
  fun more payloads hmore => h more payloads (hmore.trans hp)

/-- What follows a frame has lines within the limit if all the bytes have. -/
theorem rest {payload after : List UInt8} (h : LinesWithin limit input)
    (hf : front limit input = .frame payload after) : LinesWithin limit after := by
  obtain ⟨first, rfl, hfirst⟩ := (front_eq_frame_iff.1 hf).exists_eq_append
  rintro part payloads hpart ⟨before, line, rfl, hdue, hline⟩
  apply h (first ++ (before ++ line)) (payload :: payloads)
    ((List.prefix_append_right_inj first).2 hpart)
  exact ⟨first ++ before, line, (List.append_assoc _ _ _).symm, .frame hfirst hdue, hline⟩

theorem fault_ne (h : LinesWithin limit input) :
    (frames limit input).fault ≠ some (.malformed .lineTooLong) :=
  fun hfault => h input _ List.prefix_rfl (frames_eq_tooLong_iff.1 (frames_of_fault hfault))

theorem front_ne (h : LinesWithin limit input) :
    front limit input ≠ .broken (.malformed .lineTooLong) :=
  fun hbroken => h input [] List.prefix_rfl (front_eq_tooLong_iff.1 hbroken)

end LinesWithin

/-! ## What more bytes bring -/

/-- What came out, with some payloads before it. -/
def Delivery.behind (payloads : List (List UInt8)) (o : Delivery) : Delivery :=
  { o with payloads := payloads ++ o.payloads }

theorem front_nil (limit : Nat) : front limit [] = .waiting [] := by
  have hblock : headerBlock limit none [] = .ok none := headerBlock_of_none rfl
  unfold front
  dsimp only [dropEmptyLines]
  rw [hblock]

/-- Bytes without a fault are taken up first, and more bytes go on with what these leave. -/
theorem frames_append_of_none {input : List UInt8} (h : (frames limit input).fault = none)
    (more : List UInt8) :
    frames limit (input ++ more) =
      (frames limit ((frames limit input).unread ++ more)).behind (frames limit input).payloads := by
  fun_induction frames limit input with
  | case1 input left hf => exact frames_congr (front_append_of_waiting hf more)
  | case2 input payload rest hf hlt ih =>
    rw [frames_of_frame (front_append_of_frame hf more), ih h]
    rfl
  | case3 => cases h

/-- Nothing that follows a fault matters. -/
theorem frames_append_of_fault {input : List UInt8} {fault : Fault}
    (h : (frames limit input).fault = some fault) (hne : fault ≠ .malformed .lineTooLong)
    (more : List UInt8) : frames limit (input ++ more) = frames limit input := by
  fun_induction frames limit input with
  | case1 => cases h
  | case2 input payload rest hf hlt ih =>
    rw [frames_of_frame (front_append_of_frame hf more), ih h]
  | case3 input fault' hf =>
    cases h
    exact frames_of_broken (front_append_of_broken hf hne more)

theorem LinesWithin.frames_append_of_fault {input more : List UInt8} {fault : Fault}
    (h : LinesWithin limit (input ++ more)) (hfault : (frames limit input).fault = some fault) :
    frames limit (input ++ more) = frames limit input := by
  apply Frame.frames_append_of_fault hfault
  rintro rfl
  exact (h.of_isPrefix (List.prefix_append input more)).fault_ne hfault

/-! ## All payloads of a piece at once -/

namespace Decoder

variable {d : Decoder}

/-- Draining gives what the unread bytes hold, or else their fault alone. -/
theorem drain_eq_frames (hd : d.Sound) :
    ∃ d', d.drain = (match (frames d.limit d.unread).fault with
        | none => .ok (frames d.limit d.unread).payloads
        | some fault => .error fault, d') ∧
      d'.unread = (frames d.limit d.unread).unread ∧
      ((frames d.limit d.unread).fault = none → d'.limit = d.limit ∧ d'.Sound) := by
  fun_induction drain d with
  | case1 d payload d' hnext hlt payloads d'' hdrain ih =>
    obtain ⟨hfront, hl, hd'⟩ := front_of_next_some hnext
    obtain ⟨e, heq, hunread, hsound⟩ := ih hd'
    rw [hl] at heq hunread hsound
    rw [hdrain] at heq
    obtain ⟨rfl, rfl⟩ := Prod.mk.inj heq
    rw [frames_of_frame hfront]
    refine ⟨d'', ?_, hunread, hsound⟩
    rw [Delivery.fault_after]
    cases (frames d.limit d'.unread).fault <;> rfl
  | case2 d d' hnext =>
    obtain ⟨hfront, hsound⟩ := front_of_next_none hd hnext
    rw [frames_of_waiting hfront]
    exact ⟨d', rfl, rfl, fun _ => hsound⟩
  | case3 d fault d' hnext =>
    obtain ⟨hfront, hunread⟩ := front_of_next_error hnext
    rw [frames_of_broken hfront]
    exact ⟨d', rfl, hunread, nofun⟩

/-- Decodes pieces one after the other. The first fault ends everything. -/
def decodeEach (d : Decoder) : List (List UInt8) → Delivery
  | [] => { unread := d.unread }
  | piece :: pieces =>
    match d.decode piece with
    | (.ok payloads, d') => (d'.decodeEach pieces).behind payloads
    | (.error fault, d') => { fault := some fault, unread := d'.unread }

/-- A decoder has given all payloads of the bytes fed to it so far, and there was no fault. -/
structure Drained (limit : Nat) (fed : List UInt8) (d : Decoder) : Prop where
  sound : d.Sound
  limit_eq : d.limit = limit
  fault_eq : (frames limit fed).fault = none
  unread_eq : d.unread = (frames limit fed).unread

theorem drained_empty (limit : Nat) : Drained limit [] (empty limit) := by
  refine ⟨sound_empty limit, rfl, ?_, ?_⟩ <;> rw [frames_of_waiting (front_nil limit)]
  rfl

variable {fed piece : List UInt8}

theorem Drained.frames_eq (h : Drained limit fed d) :
    frames limit fed = { payloads := (frames limit fed).payloads, unread := d.unread } := by
  rw [h.unread_eq, ← h.fault_eq]

theorem Drained.frames_append (h : Drained limit fed d) (more : List UInt8) :
    frames limit (fed ++ more) =
      (frames limit (d.unread ++ more)).behind (frames limit fed).payloads := by
  rw [frames_append_of_none h.fault_eq, ← h.unread_eq]

/-- A piece without a fault gives the payloads it completes. -/
theorem Drained.decode_of_none (h : Drained limit fed d)
    (hnone : (frames limit (fed ++ piece)).fault = none) :
    ∃ d', d.decode piece = (.ok (frames limit (d.unread ++ piece)).payloads, d') ∧
      Drained limit (fed ++ piece) d' := by
  obtain ⟨d', hdrain, hunread, hsound⟩ := drain_eq_frames (sound_feed h.sound piece)
  rw [limit_feed, unread_feed h.sound, h.limit_eq] at hdrain hunread hsound
  rw [h.frames_append] at hnone
  have hnone' : (frames limit (d.unread ++ piece)).fault = none := hnone
  rw [hnone'] at hdrain
  obtain ⟨hl, hd'⟩ := hsound hnone'
  refine ⟨d', hdrain, hd', hl, ?_, ?_⟩
  · rw [h.frames_append]
    exact hnone
  · rw [h.frames_append]
    exact hunread

/-- A piece with a fault gives the fault alone. -/
theorem Drained.decode_of_fault {fault : Fault} (h : Drained limit fed d)
    (hfault : (frames limit (d.unread ++ piece)).fault = some fault) :
    ∃ d', d.decode piece = (.error fault, d') ∧ d'.unread = [] := by
  obtain ⟨d', hdrain, hunread, -⟩ := drain_eq_frames (sound_feed h.sound piece)
  rw [limit_feed, unread_feed h.sound, h.limit_eq] at hdrain hunread
  rw [hfault] at hdrain
  rw [frames_of_fault hfault] at hunread
  exact ⟨d', hdrain, hunread⟩

variable {pieces : List (List UInt8)}

/-- Pieces without a fault give what they hold together. -/
theorem Drained.decodeEach_of_none (h : Drained limit fed d)
    (hlines : LinesWithin limit (fed ++ pieces.flatten))
    (hnone : (frames limit (fed ++ pieces.flatten)).fault = none) :
    (d.decodeEach pieces).behind (frames limit fed).payloads =
      frames limit (fed ++ pieces.flatten) := by
  induction pieces generalizing d fed with
  | nil =>
    rw [List.flatten_nil] at hnone ⊢
    rw [List.append_nil, decodeEach, Delivery.behind, List.append_nil]
    exact h.frames_eq.symm
  | cons piece pieces ih =>
    rw [List.flatten_cons, ← List.append_assoc] at hlines hnone ⊢
    have hfirst : (frames limit (fed ++ piece)).fault = none := by
      by_contra hne
      obtain ⟨fault, hfault⟩ := Option.ne_none_iff_exists'.1 hne
      rw [hlines.frames_append_of_fault hfault, hfault] at hnone
      cases hnone
    obtain ⟨d', hdecode, hd'⟩ := h.decode_of_none hfirst
    rw [decodeEach, hdecode, ← ih hd' hlines hnone, h.frames_append]
    simp only [Delivery.behind, List.append_assoc]

/-- If there is a fault, the pieces before the one that completes it give their payloads, and this
one gives the fault alone. -/
theorem Drained.decodeEach_of_fault {fault : Fault} (h : Drained limit fed d)
    (hlines : LinesWithin limit (fed ++ pieces.flatten))
    (hfault : (frames limit (fed ++ pieces.flatten)).fault = some fault) :
    (d.decodeEach pieces).fault = some fault ∧
    ∃ early piece late left hidden, pieces = early ++ piece :: late ∧
      frames limit (fed ++ early.flatten) =
        { payloads := (frames limit fed).payloads ++ (d.decodeEach pieces).payloads, unread := left } ∧
      frames limit (left ++ piece) = { payloads := hidden, fault := some fault } := by
  induction pieces generalizing d fed with
  | nil =>
    rw [List.flatten_nil, List.append_nil, h.fault_eq] at hfault
    cases hfault
  | cons piece pieces ih =>
    rw [List.flatten_cons, ← List.append_assoc] at hlines hfault
    cases hfirst : (frames limit (fed ++ piece)).fault with
    | none =>
      obtain ⟨d', hdecode, hd'⟩ := h.decode_of_none hfirst
      obtain ⟨hend, early, piece', late, left, hidden, rfl, hearly, hrest⟩ := ih hd' hlines hfault
      rw [decodeEach, hdecode]
      refine ⟨hend, piece :: early, piece', late, left, hidden, rfl, ?_, hrest⟩
      rw [List.flatten_cons, ← List.append_assoc, hearly, h.frames_append]
      simp only [Delivery.behind, List.append_assoc]
    | some fault' =>
      rw [hlines.frames_append_of_fault hfirst, hfirst] at hfault
      obtain rfl := Option.some.inj hfault
      rw [h.frames_append] at hfirst
      obtain ⟨d', hdecode, -⟩ := h.decode_of_fault hfirst
      rw [decodeEach, hdecode]
      refine ⟨rfl, [], piece, pieces, d.unread, _, rfl, ?_, frames_of_fault hfirst⟩
      rw [List.flatten_nil, List.append_nil, List.append_nil]
      exact h.frames_eq

end Decoder

/-! ## One payload at a time -/

/-- What a reader gives after the payloads when its source has an end. -/
def Delivery.last (o : Delivery) (ending : Ending) : Received :=
  match o.fault with
  | none => Reader.verdict o.unread ending
  | some fault => .failed (.frame fault)

namespace Reader

variable {r : Reader}

theorem ahead_foldl_push (r : Reader) (pieces : List (List UInt8)) :
    (pieces.foldl push r).ahead = r.ahead ++ pieces.flatten := by
  induction pieces generalizing r with
  | nil => simp
  | cons piece pieces ih => rw [List.foldl_cons, ih, ahead_push, List.flatten_cons, List.append_assoc]

theorem Ready.foldl_push (h : r.Ready limit) (pieces : List (List UInt8)) :
    (pieces.foldl Reader.push r).Ready limit :=
  List.foldlRecOn (motive := fun r => Reader.Ready limit r) pieces Reader.push h
    fun _ hr piece _ => hr.push piece

theorem next_of_within (hr : r.Ready limit) (hlines : LinesWithin limit r.ahead) :
    match front limit r.ahead with
    | .frame payload rest => ∃ r', r.next = (.payload payload, r') ∧ r'.ahead = rest ∧
        r'.Ready limit ∧ r'.source.ending = r.source.ending
    | .waiting left => ∃ r', r.next = (verdict left r.source.ending, r') ∧
        (r.source.ending ≠ .undecided → r'.finished = true)
    | .broken fault => ∃ r', r.next = (.failed (.frame fault), r') ∧ r'.finished = true := by
  obtain ⟨hd, rfl, hfinished⟩ := hr
  have hfront := advance_of_front r.source r.chunk hd fun part hpart =>
    (hlines.of_isPrefix ((List.prefix_append_right_inj r.decoder.unread).2 hpart)).front_ne
  rw [next, hfinished, ahead]
  rcases hf : front r.decoder.limit (r.decoder.unread ++ r.source.bytes) with
    left | ⟨payload, rest⟩ | fault <;> rw [hf] at hfront
  · obtain ⟨d', hadvance, -⟩ := hfront
    exact ⟨_, hadvance, fun he => decide_eq_true he⟩
  · exact hfront
  · exact hfront

/-- A reader whose source has an end gives the payloads ahead, then the fault or the end, and then the
end whenever it is asked. -/
theorem asks_of_within (hr : r.Ready limit) (he : r.source.ending ≠ .undecided)
    (hlines : LinesWithin limit r.ahead) {n m : Nat} (hnm : n ≤ m) :
    r.asks n = ((frames limit r.ahead).payloads.map Received.payload ++
      (frames limit r.ahead).last r.source.ending :: List.replicate m (.ended false)).take n := by
  induction n generalizing r with
  | zero => rfl
  | succ n ih =>
    have hnm' : n ≤ m := by omega
    have hstep := next_of_within hr hlines
    rcases hf : front limit r.ahead with left | ⟨payload, rest⟩ | fault <;> rw [hf] at hstep
    · obtain ⟨r', hnext, hfinished⟩ := hstep
      rw [asks, hnext, asks_of_finished (hfinished he), frames_of_waiting hf, List.map_nil,
        List.nil_append, List.take_succ_cons, List.take_replicate, Nat.min_eq_left hnm']
      rfl
    · obtain ⟨r', hnext, rfl, hready, hending⟩ := hstep
      rw [asks, hnext, frames_of_frame hf, ih hready (hending ▸ he) (hlines.rest hf) hnm', hending]
      rfl
    · obtain ⟨r', hnext, hfinished⟩ := hstep
      rw [asks, hnext, asks_of_finished hfinished, frames_of_broken hf, List.map_nil,
        List.nil_append, List.take_succ_cons, List.take_replicate, Nat.min_eq_left hnm']
      rfl

/-- Whatever the pieces and the size of reads, a reader gives what all the bytes hold. -/
theorem asks_of_pieces (chunk : Nat) {ending : Ending} {pieces : List (List UInt8)}
    (hending : ending ≠ .undecided) (hlines : LinesWithin limit pieces.flatten) (n : Nat) :
    ((pieces.foldl push (start limit chunk)).close ending).asks n =
      ((frames limit pieces.flatten).payloads.map Received.payload ++
        (frames limit pieces.flatten).last ending :: List.replicate n (.ended false)).take n := by
  have hready := ((ready_start limit chunk).foldl_push pieces).close ending
  have hahead : ((pieces.foldl push (start limit chunk)).close ending).ahead = pieces.flatten := by
    rw [ahead_close, ahead_foldl_push, ahead_start, List.nil_append]
  rw [asks_of_within hready hending (by rwa [hahead]) le_rfl, hahead]
  rfl

end Reader

/-- Bytes whose header lines are within the limit are decoded in two ways. A reader, for any pieces
that arrive and any size of reads, gives the payloads of all frames, and then the fault or what its
source ends in. A decoder that gives all payloads of a piece at once tells the same fault, and gives
the same payloads if there is none. If there is one, it gives the payloads of the pieces before, but
not the hidden ones: those of the frames which the piece with the fault completes in front of it. -/
theorem hidden_by_fault (limit chunk : Nat) (ending : Ending) (pieces reads : List (List UInt8))
    (hreads : reads.flatten = pieces.flatten) (hending : ending ≠ .undecided)
    (hlines : LinesWithin limit pieces.flatten) :
    let whole := frames limit pieces.flatten
    let taken := (Decoder.empty limit).decodeEach pieces
    (∀ n, ((reads.foldl Reader.push (Reader.start limit chunk)).close ending).asks n =
      (whole.payloads.map Received.payload ++
        whole.last ending :: List.replicate n (.ended false)).take n) ∧
    taken.fault = whole.fault ∧
    (whole.fault = none → taken = whole) ∧
    ∀ fault, whole.fault = some fault → ∃ early piece late left hidden,
      pieces = early ++ piece :: late ∧
      frames limit early.flatten = { payloads := taken.payloads, unread := left } ∧
      frames limit (left ++ piece) = { payloads := hidden, fault := some fault } ∧
      whole.payloads = taken.payloads ++ hidden := by
  intro whole taken
  have hstart := Decoder.drained_empty limit
  have hempty : frames limit [] = {} := frames_of_waiting (front_nil limit)
  have hnone : whole.fault = none → taken = whole := by
    intro h
    have heq := hstart.decodeEach_of_none hlines h
    rwa [hempty] at heq
  refine ⟨fun n => ?_, ?_, hnone, fun fault hfault => ?_⟩
  · rw [Reader.asks_of_pieces chunk hending (by rwa [hreads]), hreads]
  · cases hfault : whole.fault with
    | none => rw [hnone hfault, hfault]
    | some fault => exact (hstart.decodeEach_of_fault hlines hfault).1
  · obtain ⟨-, early, piece, late, left, hidden, hpieces, hearly, hrest⟩ :=
      hstart.decodeEach_of_fault hlines hfault
    rw [List.nil_append, hempty, List.nil_append] at hearly
    refine ⟨early, piece, late, left, hidden, hpieces, hearly, hrest, ?_⟩
    have hpart : frames limit (early.flatten ++ piece) =
        { payloads := taken.payloads ++ hidden, fault := some fault } := by
      rw [frames_append_of_none (congrArg Delivery.fault hearly), hearly, hrest]
      rfl
    have hflatten : pieces.flatten = early.flatten ++ piece ++ late.flatten := by
      rw [hpieces, List.flatten_append, List.flatten_cons, List.append_assoc]
    have hlines' : LinesWithin limit (early.flatten ++ piece ++ late.flatten) := hflatten ▸ hlines
    have hwhole : whole = frames limit (early.flatten ++ piece) := by
      rw [← hlines'.frames_append_of_fault (congrArg Delivery.fault hpart)]
      exact congrArg (frames limit) hflatten
    rw [hwhole, hpart]

/-- A frame, and behind it a line that ends in a bare line feed. -/
def frameAndBareLine : List UInt8 :=
  encode [91, 93] ++ [88, 10]

theorem linesWithin_frameAndBareLine : LinesWithin 9 frameAndBareLine :=
  .of_length_le 9 (by decide +kernel)

theorem frames_frameAndBareLine :
    frames 9 frameAndBareLine =
      { payloads := [[91, 93]], fault := some (.malformed .bareLineFeed) } := by
  have hbare : headerBlock 9 none [88, 10] = .error (.malformed .bareLineFeed) :=
    headerBlock_of_bare (show splitLine [88, 10] = some ([88], []) from rfl) (by decide)
  have hfront : front 9 [88, 10] = .broken (.malformed .bareLineFeed) := by
    have hdrop : dropEmptyLines [88, 10] = [88, 10] := rfl
    unfold front
    dsimp only
    rw [hdrop, hbare]
  rw [frameAndBareLine, frames_of_frame (front_encode_append (by decide) (by decide) _),
    frames_of_broken hfront]
  rfl

/-- The frame arrives in a piece of its own, and nothing is hidden. -/
theorem seen_before_bare_line :
    let pieces := [encode [91, 93], [88, 10]]
    LinesWithin 9 pieces.flatten ∧
      ∃ early piece late left hidden, pieces = early ++ piece :: late ∧
        frames 9 early.flatten =
          { payloads := ((Decoder.empty 9).decodeEach pieces).payloads, unread := left } ∧
        frames 9 (left ++ piece) =
          { payloads := hidden, fault := some (.malformed .bareLineFeed) } ∧
        (frames 9 pieces.flatten).payloads =
          ((Decoder.empty 9).decodeEach pieces).payloads ++ hidden := by
  intro pieces
  have hpieces : pieces.flatten = frameAndBareLine := by
    simp [pieces, frameAndBareLine]
  have hlines : LinesWithin 9 pieces.flatten := hpieces ▸ linesWithin_frameAndBareLine
  have hfault : (frames 9 pieces.flatten).fault = some (.malformed .bareLineFeed) := by
    rw [hpieces, frames_frameAndBareLine]
  exact ⟨hlines, (hidden_by_fault 9 4 .ended pieces pieces rfl nofun hlines).2.2.2 _ hfault⟩

/-- A reader gives the payload of a frame in front of a fault; a decoder that gets both in one piece
does not. -/
theorem hidden_in_one_piece :
    ¬∀ (limit chunk : Nat) (pieces reads : List (List UInt8)), reads.flatten = pieces.flatten →
      LinesWithin limit pieces.flatten → ∃ n last rest,
        (∀ payload, last ≠ Received.payload payload) ∧
        ((reads.foldl Reader.push (Reader.start limit chunk)).close .ended).asks n =
          ((Decoder.empty limit).decodeEach pieces).payloads.map Received.payload ++
            last :: rest := by
  intro h
  have hflatten : [frameAndBareLine].flatten = frameAndBareLine := List.flatten_singleton
  have hlines : LinesWithin 9 [frameAndBareLine].flatten := by
    rw [hflatten]
    exact linesWithin_frameAndBareLine
  have hnothing : ((Decoder.empty 9).decodeEach [frameAndBareLine]).payloads = [] := by
    decide +kernel
  obtain ⟨n, last, rest, hlast, hasks⟩ := h 9 4 [frameAndBareLine] [frameAndBareLine] rfl hlines
  have hended : Ending.ended ≠ .undecided := nofun
  rw [hnothing, Reader.asks_of_pieces 4 hended hlines, hflatten, frames_frameAndBareLine] at hasks
  cases n with
  | zero => cases hasks
  | succ n => exact hlast [91, 93] (List.cons.inj hasks).1.symm

end PeerRpc.Frame
