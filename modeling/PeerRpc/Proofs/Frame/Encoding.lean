import PeerRpc.Proofs.Decimal.Numeral
import PeerRpc.Proofs.Frame.Unread

/-!
# Finding the frames that were written

A frame that was written around a payload is found again whatever follows it
(`front_encode_append`), and a part of it is recognised as the beginning of a frame
(`front_of_fragment`). Cut anywhere, a stream of frames is a stream of the whole ones and a part of
another (`take_stream`).
-/

namespace PeerRpc.Frame

/-- The bytes of a header that tells a length, without the end of the line. -/
def lengthLine (n : Nat) : List UInt8 :=
  Text.utf8OfChars ("Content-Length: ".toList ++ Decimal.natural n)

/-- The bytes before the payload of a frame. -/
def preamble (n : Nat) : List UInt8 :=
  lengthLine n ++ [13, 10, 13, 10]

theorem encode_eq (payload : List UInt8) : encode payload = preamble payload.length ++ payload := by
  unfold encode preamble lengthLine
  rw [Text.utf8OfChars_append]
  rfl

theorem length_preamble_le {n : Nat} (h : n < UInt64.size) : (preamble n).length ≤ 40 := by
  have hd : (Decimal.digits n).length ≤ 20 :=
    Decimal.length_digits_le (by omega) (h.trans_le (by decide))
  unfold preamble lengthLine
  rw [Text.utf8OfChars_append, Decimal.utf8OfChars_natural]
  simp only [List.length_append, List.length_map]
  have : (Text.utf8OfChars "Content-Length: ".toList).length = 16 := by decide
  rw [this]
  simp only [List.length_cons, List.length_nil]
  omega

theorem le_of_mem_lengthLine {n : Nat} {b : UInt8} (h : b ∈ lengthLine n) : 32 ≤ b.toNat := by
  unfold lengthLine at h
  rw [Text.utf8OfChars_append, Decimal.utf8OfChars_natural, List.mem_append] at h
  rcases h with h | h
  · have hall : ∀ b ∈ Text.utf8OfChars "Content-Length: ".toList, 32 ≤ b.toNat := by decide +kernel
    exact hall b h
  · obtain ⟨d, hd, rfl⟩ := List.mem_map.1 h
    have := Decimal.lt_of_mem_digits hd
    rw [UInt8.toNat_ofNat']
    omega

theorem lengthLine_head (n : Nat) : ∃ rest, lengthLine n = 67 :: rest := by
  unfold lengthLine
  rw [Text.utf8OfChars_append]
  exact ⟨_, rfl⟩

/-! ## The header -/

theorem isBlank_of_digit {c : Char} (h : 48 ≤ c.toNat ∧ c.toNat ≤ 57) : Text.isBlank c = false := by
  unfold Text.isBlank
  simp only [Bool.or_eq_false_iff, Bool.and_eq_false_iff, decide_eq_false_iff_not, beq_eq_false_iff_ne]
  omega

theorem trimChars_space_cons {cs : List Char} (h : ∀ c ∈ cs, Text.isBlank c = false) :
    Text.trimChars (' ' :: cs) = cs := by
  have hdrop : ∀ ds : List Char, (∀ c ∈ ds, Text.isBlank c = false) →
      ds.dropWhile Text.isBlank = ds := by
    intro ds hds
    rw [List.dropWhile_eq_self_iff]
    intro hl
    simp [hds _ (List.getElem_mem hl)]
  unfold Text.trimChars
  rw [List.dropWhile_cons_of_pos (by decide), hdrop cs h,
    hdrop cs.reverse fun c hc => h c (List.mem_reverse.1 hc), List.reverse_reverse]

theorem length?_natural (n : Nat) :
    length? (String.ofList (Decimal.natural n)) = if n ≤ UInt64.size - 1 then some n else none := by
  unfold length?
  dsimp only
  rw [String.toList_ofList, if_neg]
  · rw [Decimal.map_sub_natural, Decimal.valueWithin?_eq, Decimal.value_digits]
  · simp only [Bool.or_eq_true, List.isEmpty_iff, Decimal.natural_ne_nil, List.any_eq_true, false_or,
      not_exists, not_and]
    intro c hc
    have := Decimal.mem_natural hc
    simp only [Bool.not_eq_true', Bool.and_eq_false_iff, decide_eq_false_iff_not, not_or, not_not,
      Char.le_def, UInt32.le_iff_toNat_le]
    exact this

theorem header_lengthLine (n : Nat) :
    header (lengthLine n) = .ok ("Content-Length", String.ofList (Decimal.natural n)) := by
  have hdigit : ∀ c ∈ Decimal.natural n, c ≠ '\r' ∧ c ≠ ':' := by
    intro c hc
    have := Decimal.mem_natural hc
    constructor <;> rintro rfl <;> revert this <;> decide
  have hreturn : '\r' ∉ "Content-Length: ".toList ++ Decimal.natural n := by
    rw [List.mem_append]
    rintro (h | h)
    · exact absurd h (by decide)
    · exact (hdigit _ h).1 rfl
  have hblank : ∀ c ∈ Decimal.natural n, Text.isBlank c = false :=
    fun c hc => isBlank_of_digit (Decimal.mem_natural hc)
  unfold header lengthLine
  rw [Text.ofUtf8?_utf8OfChars]
  dsimp only
  rw [String.toList_ofList, if_neg hreturn, if_neg (by simp)]
  have hcolon : ':' ∉ "Content-Length".toList := by decide
  have hname : ∀ c ∈ "Content-Length".toList, decide (c ≠ ':') = true :=
    fun c hc => decide_eq_true fun h => hcolon (h ▸ hc)
  have hsplit : "Content-Length: ".toList ++ Decimal.natural n =
      "Content-Length".toList ++ ':' :: ' ' :: Decimal.natural n := rfl
  rw [hsplit, List.takeWhile_append_of_pos hname, List.dropWhile_append_of_pos hname,
    List.takeWhile_cons_of_neg (by decide), List.dropWhile_cons_of_neg (by decide), List.append_nil,
    List.drop_succ_cons, List.drop_zero, trimChars_space_cons hblank]
  have htrim : Text.trimChars "Content-Length".toList = "Content-Length".toList := by
    decide
  rw [htrim, String.ofList_toList]

theorem lengthOfLine_lengthLine {limit n : Nat} (hn : n ≤ limit) (h : n < UInt64.size) :
    lengthOfLine limit (lengthLine n) = .ok (some n) := by
  have hname : isLengthName "Content-Length" = true := by decide
  unfold lengthOfLine
  rw [header_lengthLine]
  simp only [bind, Except.bind]
  rw [if_pos hname, length?_natural, if_pos (by omega)]
  exact if_neg (by omega)

/-- A length beyond the limit is refused. -/
theorem lengthOfLine_of_lt {limit n : Nat} (h : limit < n) :
    ∃ fault, lengthOfLine limit (lengthLine n) = .error fault := by
  have hname : isLengthName "Content-Length" = true := by decide
  unfold lengthOfLine
  rw [header_lengthLine]
  simp only [bind, Except.bind]
  rw [if_pos hname, length?_natural]
  split_ifs
  · exact ⟨_, if_pos h⟩
  · exact ⟨_, rfl⟩

/-- The line of a preamble that tells the length. -/
theorem splitLine_preamble (n : Nat) (rest : List UInt8) :
    splitLine (preamble n ++ rest) = some (lengthLine n ++ [13], [13, 10] ++ rest) := by
  have hmem : 10 ∉ lengthLine n := fun hm => absurd (le_of_mem_lengthLine hm) (by decide)
  rw [splitLine_eq_some_iff]
  constructor
  · simp [preamble]
  · simp [hmem]

/-- The headers of a preamble are read up to what the line with the length says. -/
theorem headerBlock_preamble_eq (limit n : Nat) (rest : List UInt8) :
    headerBlock limit none (preamble n ++ rest) =
      match lengthOfLine limit (lengthLine n) with
      | .error fault => .error fault
      | .ok told => headerBlock limit (told.or none) ([13, 10] ++ rest) := by
  have hline : (lengthLine n ++ [13]).dropLast = lengthLine n := List.dropLast_concat
  have hne : lengthLine n ≠ [] := by
    obtain ⟨tail, ht⟩ := lengthLine_head n
    rw [ht]
    exact List.cons_ne_nil _ _
  have hread : headerBlock limit none (preamble n ++ rest) = _ :=
    headerBlock_of_line (splitLine_preamble n rest) (by simp) (by rwa [hline])
  rw [hline] at hread
  exact hread

theorem headerBlock_preamble {limit n : Nat} (hn : n ≤ limit) (h : n < UInt64.size)
    (rest : List UInt8) :
    headerBlock limit none (preamble n ++ rest) = .ok (some (some n, rest)) := by
  have hempty : splitLine ([13, 10] ++ rest) = some ([13], rest) := by
    rw [splitLine_eq_some_iff]
    simp
  rw [headerBlock_preamble_eq, lengthOfLine_lengthLine hn h]
  exact headerBlock_of_end hempty rfl rfl

/-! ## Frames -/

theorem dropEmptyLines_of_head {b : UInt8} (hb : b ≠ 13) (rest : List UInt8) :
    dropEmptyLines (b :: rest) = b :: rest := by
  cases rest with
  | nil => rfl
  | cons c rest => rw [dropEmptyLines, if_neg (by simp [hb])]

theorem dropEmptyLines_preamble (n : Nat) (rest : List UInt8) :
    dropEmptyLines (preamble n ++ rest) = preamble n ++ rest := by
  obtain ⟨tail, ht⟩ := lengthLine_head n
  rw [preamble, ht]
  exact dropEmptyLines_of_head (by decide) _

/-- The front of a preamble and what follows it: a frame if the payload is whole. -/
theorem front_preamble {limit n : Nat} (hn : n ≤ limit) (h : n < UInt64.size)
    (rest : List UInt8) :
    front limit (preamble n ++ rest) =
      if rest.length < n then .waiting (preamble n ++ rest)
      else .frame (rest.take n) (rest.drop n) := by
  unfold front
  dsimp only
  rw [dropEmptyLines_preamble, headerBlock_preamble hn h]

theorem front_encode_append {limit : Nat} {payload : List UInt8} (hn : payload.length ≤ limit)
    (h : payload.length < UInt64.size) (rest : List UInt8) :
    front limit (encode payload ++ rest) = .frame payload rest := by
  rw [encode_eq, List.append_assoc, front_preamble hn h,
    if_neg (by simp), List.take_left, List.drop_left]

/-! ## Parts of frames -/

theorem header_ne_lineTooLong (line : List UInt8) :
    header line ≠ .error (.malformed .lineTooLong) := by
  unfold header
  dsimp only
  split
  · simp
  · split_ifs <;> simp

theorem lengthOfLine_ne_lineTooLong (limit : Nat) (line : List UInt8) :
    lengthOfLine limit line ≠ .error (.malformed .lineTooLong) := by
  unfold lengthOfLine
  rcases hh : header line with fault | ⟨name, value⟩
  · exact fun h => header_ne_lineTooLong line (hh.trans (congrArg _ (Except.error.inj h)))
  · simp only [bind, Except.bind]
    split_ifs
    · split
      · simp
      · split_ifs <;> simp
    · simp

theorem lt_length_of_lineTooLong {limit : Nat} {length : Option Nat} {input : List UInt8}
    (h : headerBlock limit length input = .error (.malformed .lineTooLong)) :
    maxHeaderLine < input.length := by
  fun_induction headerBlock limit length input with
  | case1 length input hs hlong => exact hlong
  | case2 | case3 => cases h
  | case4 length input line rest hs hlt hl fault hd hf =>
    cases h
    exact absurd hf (lengthOfLine_ne_lineTooLong limit _)
  | case5 length input line rest hs hlt hl told hd hf ih => exact (ih h).trans hlt
  | case6 => cases h

theorem lt_length_of_front_lineTooLong {limit : Nat} {input : List UInt8}
    (h : front limit input = .broken (.malformed .lineTooLong)) : maxHeaderLine < input.length := by
  unfold front at h
  dsimp only at h
  split at h
  · rename_i hb
    cases h
    exact (lt_length_of_lineTooLong hb).trans_le (dropEmptyLines_suffix input).length_le
  · cases h
  · cases h
  · split_ifs at h

/-- No empty lines stand before a frame. -/
theorem dropEmptyLines_of_isPrefix {payload part rest : List UInt8}
    (h : part <+: encode payload ++ rest) : dropEmptyLines part = part := by
  cases part with
  | nil => rfl
  | cons b part =>
    obtain ⟨tail, ht⟩ := lengthLine_head payload.length
    rw [encode_eq, preamble, ht] at h
    exact dropEmptyLines_of_head (by rw [(List.cons_prefix_cons.1 h).1]; decide) _

theorem front_of_prefix_encode {limit : Nat} {payload part : List UInt8}
    (hn : payload.length ≤ limit) (h : payload.length < UInt64.size) (hp : part <+: encode payload)
    (hne : part.length < (encode payload).length) : front limit part = .waiting part := by
  have hdrop : dropEmptyLines part = part :=
    dropEmptyLines_of_isPrefix (hp.trans (List.prefix_append _ []))
  rcases Nat.lt_or_ge part.length (preamble payload.length).length with hlen | hlen
  · -- Were the part broken or a frame already, the whole would be the same.
    have hshort : part.length ≤ maxHeaderLine := by
      have := length_preamble_le h
      unfold maxHeaderLine
      omega
    obtain ⟨more, hmore⟩ := hp
    have hwhole := front_encode_append hn h []
    rw [List.append_nil, ← hmore] at hwhole
    rcases hf : front limit part with left | ⟨payload', rest⟩ | fault
    · rw [eq_dropEmptyLines_of_front_waiting hf, hdrop]
    · rw [front_append_of_frame hf] at hwhole
      obtain ⟨-, hnil⟩ := Front.frame.inj hwhole
      rw [← hmore, (List.append_eq_nil_iff.1 hnil).2, List.append_nil] at hne
      exact absurd hne (Nat.lt_irrefl _)
    · have hfault : fault ≠ .malformed .lineTooLong := by
        rintro rfl
        exact absurd (lt_length_of_front_lineTooLong hf) (Nat.not_lt.2 hshort)
      rw [front_append_of_broken hf hfault] at hwhole
      cases hwhole
  · obtain ⟨q, rfl⟩ : preamble payload.length <+: part :=
      List.prefix_of_prefix_length_le ⟨payload, (encode_eq payload).symm⟩ hp hlen
    rw [encode_eq, List.length_append, List.length_append] at hne
    rw [front_preamble hn h, if_pos (by omega)]

/-- Part of a frame, and not all of it, for some payload within the limit. -/
def Fragment (limit : Nat) (input : List UInt8) : Prop :=
  ∃ payload, payload.length ≤ limit ∧ input <+: encode payload ∧
    input.length < (encode payload).length

theorem encode_length_pos (payload : List UInt8) : 0 < (encode payload).length := by
  obtain ⟨tail, ht⟩ := lengthLine_head payload.length
  rw [encode_eq, preamble, ht]
  simp

theorem fragment_nil (limit : Nat) : Fragment limit [] :=
  ⟨[], Nat.zero_le _, List.nil_prefix, encode_length_pos []⟩

theorem Fragment.of_isPrefix {limit : Nat} {a b : List UInt8} (h : Fragment limit b) (hab : a <+: b) :
    Fragment limit a := by
  obtain ⟨payload, hl, hp, hlt⟩ := h
  exact ⟨payload, hl, hab.trans hp, hab.length_le.trans_lt hlt⟩

/-- A part of a frame is recognised as the beginning of one. -/
theorem front_of_fragment {limit : Nat} {input : List UInt8} (hl : limit < UInt64.size)
    (h : Fragment limit input) : front limit input = .waiting input := by
  obtain ⟨payload, hn, hp, hlt⟩ := h
  exact front_of_prefix_encode hn (hn.trans_lt hl) hp hlt

/-- The beginning of a frame and some more bytes is the whole frame and some more, or a part. -/
theorem whole_or_fragment {limit : Nat} {payload input rest : List UInt8} (hn : payload.length ≤ limit)
    (h : input <+: encode payload ++ rest) :
    (∃ more, input = encode payload ++ more ∧ more <+: rest) ∨ Fragment limit input := by
  rcases Nat.lt_or_ge input.length (encode payload).length with hlt | hge
  · refine .inr ⟨payload, hn, ?_, hlt⟩
    exact List.prefix_of_prefix_length_le h (List.prefix_append _ _) hlt.le
  · obtain ⟨more, rfl⟩ := List.prefix_of_prefix_length_le (List.prefix_append _ _) h hge
    exact .inl ⟨more, rfl, (List.prefix_append_right_inj _).1 h⟩

/-! ## Streams -/

/-- The frames of some payloads, one after the other. -/
def stream (payloads : List (List UInt8)) : List UInt8 :=
  (payloads.map encode).flatten

@[simp] theorem stream_nil : stream [] = [] := rfl

@[simp] theorem stream_cons (payload : List UInt8) (payloads : List (List UInt8)) :
    stream (payload :: payloads) = encode payload ++ stream payloads := rfl

@[simp] theorem stream_append (a b : List (List UInt8)) :
    stream (a ++ b) = stream a ++ stream b := by
  simp [stream]

/-- The payloads whose frames lie within the first bytes of their stream. -/
def whole : Nat → List (List UInt8) → List (List UInt8)
  | _, [] => []
  | k, payload :: payloads =>
    if (encode payload).length ≤ k then
      payload :: whole (k - (encode payload).length) payloads
    else []

theorem whole_isPrefix (k : Nat) (payloads : List (List UInt8)) : whole k payloads <+: payloads := by
  induction payloads generalizing k with
  | nil => exact List.prefix_rfl
  | cons payload payloads ih =>
    rw [whole]
    split_ifs
    · exact List.cons_prefix_cons.2 ⟨rfl, ih _⟩
    · exact List.nil_prefix

/-- The first bytes of a stream are the stream of the whole frames among them and a part of
another. -/
theorem take_stream {limit : Nat} {payloads : List (List UInt8)}
    (h : ∀ payload ∈ payloads, payload.length ≤ limit) (k : Nat) :
    ∃ left, (stream payloads).take k = stream (whole k payloads) ++ left ∧ Fragment limit left := by
  induction payloads generalizing k with
  | nil => exact ⟨[], by simp [whole], fragment_nil limit⟩
  | cons payload payloads ih =>
    rw [whole, stream_cons]
    split_ifs with hk
    · obtain ⟨left, he, hl⟩ := ih (fun p hp => h p (List.mem_cons_of_mem _ hp))
        (k - (encode payload).length)
      refine ⟨left, ?_, hl⟩
      rw [List.take_append, List.take_of_length_le hk, he, stream_cons, List.append_assoc]
    · refine ⟨(encode payload).take k, ?_, payload, h _ List.mem_cons_self, List.take_prefix _ _, ?_⟩
      · rw [List.take_append_of_le_length (by omega), stream_nil, List.nil_append]
      · rw [List.length_take]
        omega

end PeerRpc.Frame
