import PeerRpc.Proofs.Frame.Encoding

/-!
# What a frame looks like

A frame is told here by its shape alone: empty lines, the lines of some header fields, an empty line
and the payload (`Begins`). A field is a name and a value with a colon between them; those whose name
is `Content-Length` must tell a number within the limit, and the last of them tells how long the
payload is.

* `takes_iff_begins`: the decoder takes a payload exactly if its unread bytes begin with a frame
  around it, and what it leaves unread is what follows the frame.
-/

namespace PeerRpc.Frame

/-- The end of a line. -/
def lineEnd : List UInt8 := [13, 10]

/-! ## Header fields -/

/-- A header field: its name ends at the first colon, and the line at the first break. -/
structure Field where
  name : List Char
  value : List Char
  colon_notMem : ':' ∉ name
  return_notMem : '\r' ∉ name ++ value
  feed_notMem : '\n' ∉ name ++ value

namespace Field

/-- The bytes of a field's line, without its end. -/
def bytes (f : Field) : List UInt8 :=
  Text.utf8OfChars (f.name ++ ':' :: f.value)

/-- Whether a field is about the payload's length, whatever the case of the letters and the blanks
around its name. -/
def isLength (f : Field) : Bool :=
  (Text.trimChars f.name).map Char.toLower = "Content-Length".toList.map Char.toLower

/-- What is left of a field's value without the blanks around it. -/
def numeral (f : Field) : List Char :=
  Text.trimChars f.value

/-- The number that a field's value stands for if it is a numeral. -/
def number (f : Field) : Nat :=
  Decimal.value (f.numeral.map fun c => c.toNat - '0'.toNat)

/-- A field whose value is a numeral, of a number that fits 64 bits and is within a limit. -/
structure Fits (f : Field) (limit : Nat) : Prop where
  ne_nil : f.numeral ≠ []
  digits : ∀ c ∈ f.numeral, '0' ≤ c ∧ c ≤ '9'
  word : f.number < UInt64.size
  within : f.number ≤ limit

/-- The lines of some fields. -/
def lines (fs : List Field) : List UInt8 :=
  fs.flatMap fun f => f.bytes ++ lineEnd

/-- The length that the last field about it tells, or else one that was told before. -/
def told (fs : List Field) (before : Option Nat) : Option Nat :=
  ((fs.filter isLength).getLast?.map number).or before

/-- Of some fields, those about the payload's length fit. -/
def AllFit (limit : Nat) (fs : List Field) : Prop :=
  ∀ f ∈ fs, f.isLength = true → f.Fits limit

theorem lines_cons (f : Field) (fs : List Field) :
    lines (f :: fs) = f.bytes ++ (lineEnd ++ lines fs) := by
  rw [lines, List.flatMap_cons, List.append_assoc]
  rfl

theorem told_cons (f : Field) (fs : List Field) (before : Option Nat) :
    told (f :: fs) before = told fs ((if f.isLength then some f.number else none).or before) := by
  unfold told
  by_cases h : f.isLength = true
  · rw [List.filter_cons_of_pos h, if_pos h, List.getLast?_cons]
    cases (fs.filter isLength).getLast? <;> rfl
  · rw [List.filter_cons_of_neg h, if_neg h, Option.none_or]

theorem allFit_cons {limit : Nat} {f : Field} {fs : List Field} :
    AllFit limit (f :: fs) ↔ (f.isLength = true → f.Fits limit) ∧ AllFit limit fs :=
  List.forall_mem_cons

theorem break_notMem (f : Field) : '\r' ∉ f.name ++ ':' :: f.value ∧ '\n' ∉ f.name ++ ':' :: f.value := by
  have hr := f.return_notMem
  have hn := f.feed_notMem
  simp only [List.mem_append, not_or] at hr hn
  simp [hr.1, hr.2, hn.1, hn.2]

theorem feed_notMem_bytes (f : Field) : 10 ∉ f.bytes :=
  fun h => f.break_notMem.2 ((Text.mem_utf8OfChars_iff (c := '\n') (by decide)).1 h)

theorem return_notMem_bytes (f : Field) : 13 ∉ f.bytes :=
  fun h => f.break_notMem.1 ((Text.mem_utf8OfChars_iff (c := '\r') (by decide)).1 h)

theorem bytes_ne_nil (f : Field) : f.bytes ≠ [] := by
  have h := (Text.mem_utf8OfChars_iff (c := ':') (by decide)).2
    (List.mem_append_right f.name (List.mem_cons_self (l := f.value)))
  exact List.ne_nil_of_mem h

/-- Reading a field's line gives its name and its value without the blanks around them. -/
theorem header_bytes (f : Field) :
    header f.bytes =
      .ok (String.ofList (Text.trimChars f.name), String.ofList (Text.trimChars f.value)) := by
  have hname : ∀ c ∈ f.name, decide (c ≠ ':') = true :=
    fun c hc => decide_eq_true fun h => f.colon_notMem (h ▸ hc)
  unfold header bytes
  rw [Text.ofUtf8?_utf8OfChars]
  dsimp only
  rw [String.toList_ofList, if_neg f.break_notMem.1, if_neg (by simp),
    List.takeWhile_append_of_pos hname, List.dropWhile_append_of_pos hname,
    List.takeWhile_cons_of_neg (by decide), List.dropWhile_cons_of_neg (by decide),
    List.append_nil, List.drop_succ_cons, List.drop_zero]

/-- A line that can be read is that of a field. -/
theorem exists_of_header {line : List UInt8} {name value : String}
    (h : header line = .ok (name, value)) (hfeed : 10 ∉ line) : ∃ f : Field, line = f.bytes := by
  unfold header at h
  split at h
  · cases h
  · rename_i text ht
    obtain rfl := Text.utf8OfChars_of_ofUtf8? ht
    dsimp only at h
    split_ifs at h with hreturn hcolon
    have hn : '\n' ∉ text.toList :=
      fun hm => hfeed ((Text.mem_utf8OfChars_iff (c := '\n') (by decide)).2 hm)
    obtain ⟨name, value, hsplit, hname⟩ := List.eq_append_cons_of_mem hcolon
    rw [hsplit] at hreturn hn ⊢
    simp only [List.mem_append, List.mem_cons, not_or] at hreturn hn
    exact ⟨⟨name, value, hname, by simp [hreturn.1, hreturn.2.2], by simp [hn.1, hn.2.2]⟩, rfl⟩

theorem isLengthName_ofList (f : Field) :
    isLengthName (String.ofList (Text.trimChars f.name)) = f.isLength := by
  have hlower : "Content-Length".toList.map Char.toLower = "content-length".toList := by
    decide
  rw [isLengthName, isLength, String.toList_ofList, hlower]

/-- What is read as a length is the number of a numeral that fits 64 bits. -/
theorem length?_eq_some_iff {cs : List Char} {n : Nat} :
    length? (String.ofList cs) = some n ↔ cs ≠ [] ∧ (∀ c ∈ cs, '0' ≤ c ∧ c ≤ '9') ∧
      Decimal.value (cs.map fun c => c.toNat - '0'.toNat) < UInt64.size ∧
      Decimal.value (cs.map fun c => c.toNat - '0'.toNat) = n := by
  have hword : ∀ m, m ≤ UInt64.size - 1 ↔ m < UInt64.size := by
    intro m
    have : 0 < UInt64.size := by decide
    omega
  have hdigits : (cs.isEmpty || cs.any fun c : Char =>
      !(decide ('0' ≤ c) && decide (c ≤ '9'))) = true ↔
      ¬(cs ≠ [] ∧ ∀ c ∈ cs, '0' ≤ c ∧ c ≤ '9') := by
    rw [not_and_or, not_not]
    simp only [Bool.or_eq_true, List.isEmpty_iff, List.any_eq_true, Bool.not_eq_true',
      Bool.and_eq_false_iff, decide_eq_false_iff_not, not_forall, not_and_or, exists_prop]
  rw [length?, String.toList_ofList, Decimal.valueWithin?_eq]
  change (if _ then none else if Decimal.value (cs.map fun c : Char => c.toNat - '0'.toNat) ≤ _ then
    some (Decimal.value (cs.map fun c : Char => c.toNat - '0'.toNat)) else none) = _ ↔ _
  simp only [hword]
  rw [← and_assoc]
  by_cases h : cs ≠ [] ∧ ∀ c ∈ cs, '0' ≤ c ∧ c ≤ '9'
  · rw [if_neg fun h' => hdigits.1 h' h, and_iff_right h]
    split_ifs with hlt
    · rw [Option.some_inj, and_iff_right hlt]
    · exact ⟨nofun, fun h' => absurd h'.1 hlt⟩
  · rw [if_pos (hdigits.2 h)]
    simp only [reduceCtorEq, false_iff]
    exact fun h' => h h'.1

/-- What a field's line tells about the payload's length: nothing if it is not about it, or else
its number, which must fit. -/
theorem lengthOfLine_bytes {limit : Nat} {f : Field} {length : Option Nat} :
    lengthOfLine limit f.bytes = .ok length ↔
      (f.isLength = true → f.Fits limit) ∧
        length = if f.isLength then some f.number else none := by
  rw [lengthOfLine, header_bytes]
  change (if isLengthName _ = true then _ else _) = _ ↔ _
  rw [isLengthName_ofList]
  by_cases hlength : f.isLength = true
  · rw [if_pos hlength, if_pos hlength, forall_prop_of_true hlength]
    cases hn : length? (String.ofList (Text.trimChars f.value)) with
    | none =>
      have hnot : ¬f.Fits limit := by
        intro h
        have := length?_eq_some_iff.2 ⟨h.ne_nil, h.digits, h.word, rfl⟩
        exact nomatch hn.symm.trans this
      simp [hnot]
    | some n =>
      obtain ⟨hne, hdigits, hword, hnumber⟩ := length?_eq_some_iff.1 hn
      have hfits : f.Fits limit ↔ n ≤ limit :=
        ⟨fun h => hnumber ▸ h.within, fun h => ⟨hne, hdigits, hword, hnumber.trans_le h⟩⟩
      have hnumber : f.number = n := hnumber
      rw [hfits, hnumber]
      dsimp only
      split_ifs with hlimit
      · simp [Nat.not_le.2 hlimit]
      · simp [Nat.not_lt.1 hlimit, eq_comm]
  · rw [if_neg hlength, if_neg hlength]
    simp [hlength, eq_comm]

theorem lengthOfLine_eq_ok {limit : Nat} {line : List UInt8} {length : Option Nat}
    (h : lengthOfLine limit line = .ok length) (hfeed : 10 ∉ line) :
    ∃ f : Field, line = f.bytes ∧ (f.isLength = true → f.Fits limit) ∧
      length = if f.isLength then some f.number else none := by
  have hread : ∃ name value, header line = .ok (name, value) := by
    unfold lengthOfLine at h
    cases hh : header line with
    | error fault =>
      rw [hh] at h
      cases h
    | ok named => exact ⟨named.1, named.2, rfl⟩
  obtain ⟨name, value, hread⟩ := hread
  obtain ⟨f, rfl⟩ := exists_of_header hread hfeed
  exact ⟨f, rfl, lengthOfLine_bytes.1 h⟩

end Field

/-! ## Blocks of fields -/

open Frame.Field (AllFit lines told)

theorem splitLine_lineEnd {line : List UInt8} (h : 10 ∉ line) (rest : List UInt8) :
    splitLine (line ++ (lineEnd ++ rest)) = some (line ++ [13], rest) := by
  rw [splitLine_eq_some_iff]
  simp [lineEnd, h]

/-- A line that ends as it should. -/
theorem eq_of_splitLine {input line rest : List UInt8} (h : splitLine input = some (line, rest))
    (hl : line.getLast? = some 13) : input = line.dropLast ++ (lineEnd ++ rest) ∧ 10 ∉ line.dropLast := by
  obtain ⟨rfl, hfeed⟩ := splitLine_eq_some_iff.1 h
  have hline : line = line.dropLast ++ [13] :=
    (List.dropLast_append_getLast? 13 (by rw [hl]; rfl)).symm
  refine ⟨?_, fun hm => hfeed (List.mem_of_mem_dropLast hm)⟩
  conv_lhs => rw [hline]
  simp [lineEnd]

/-- The lines of some fields are read one after the other. -/
theorem headerBlock_lines {limit : Nat} {fs : List Field} (hall : AllFit limit fs)
    (before : Option Nat) (rest : List UInt8) :
    headerBlock limit before (lines fs ++ rest) = headerBlock limit (told fs before) rest := by
  induction fs generalizing before with
  | nil => rfl
  | cons f fs ih =>
    obtain ⟨hfits, hall⟩ := Field.allFit_cons.1 hall
    rw [Field.lines_cons, List.append_assoc, List.append_assoc,
      headerBlock_of_line (splitLine_lineEnd f.feed_notMem_bytes _) List.getLast?_concat,
      List.dropLast_concat, Field.lengthOfLine_bytes.2 ⟨hfits, rfl⟩, Field.told_cons]
    · exact ih hall _
    · rw [List.dropLast_concat]
      exact f.bytes_ne_nil

/-- The headers are read up to the first empty line exactly if they are the lines of fields. -/
theorem headerBlock_eq_ok_iff {limit : Nat} {before length : Option Nat} {input rest : List UInt8} :
    headerBlock limit before input = .ok (some (length, rest)) ↔
      ∃ fs, input = lines fs ++ (lineEnd ++ rest) ∧ AllFit limit fs ∧ length = told fs before := by
  constructor
  · intro h
    fun_induction headerBlock limit before input with
    | case1 | case2 => cases h
    | case3 before input line after hs hlt hl hd =>
      cases h
      obtain ⟨hinput, -⟩ := eq_of_splitLine hs hl
      rw [hd] at hinput
      exact ⟨[], hinput, List.forall_mem_nil _, rfl⟩
    | case4 => cases h
    | case5 before input line after hs hlt hl length' hd hf ih =>
      obtain ⟨hinput, hfeed⟩ := eq_of_splitLine hs hl
      obtain ⟨f, hline, hfits, rfl⟩ := Field.lengthOfLine_eq_ok hf hfeed
      obtain ⟨fs, rfl, hall, rfl⟩ := ih h
      refine ⟨f :: fs, ?_, Field.allFit_cons.2 ⟨hfits, hall⟩, (Field.told_cons f fs before).symm⟩
      rw [hinput, hline, Field.lines_cons, List.append_assoc, List.append_assoc]
    | case6 => cases h
  · rintro ⟨fs, rfl, hall, rfl⟩
    rw [headerBlock_lines hall]
    exact headerBlock_of_end (splitLine_lineEnd List.not_mem_nil rest) rfl rfl

/-! ## Empty lines -/

/-- Some empty lines. -/
def emptyLines (n : Nat) : List UInt8 :=
  (List.replicate n lineEnd).flatten

theorem emptyLines_succ (n : Nat) : emptyLines (n + 1) = lineEnd ++ emptyLines n := by
  rw [emptyLines, List.replicate_succ, List.flatten_cons]
  rfl

theorem dropEmptyLines_emptyLines (n : Nat) (rest : List UInt8) :
    dropEmptyLines (emptyLines n ++ rest) = dropEmptyLines rest := by
  induction n with
  | zero => rfl
  | succ n ih =>
    rw [emptyLines_succ, List.append_assoc]
    exact ih

theorem exists_emptyLines (input : List UInt8) : ∃ n, input = emptyLines n ++ dropEmptyLines input := by
  fun_induction dropEmptyLines input with
  | case1 a b rest h ih =>
    obtain ⟨n, hn⟩ := ih
    simp only [Bool.and_eq_true, decide_eq_true_eq] at h
    obtain ⟨rfl, rfl⟩ := h
    refine ⟨n + 1, ?_⟩
    conv_lhs => rw [hn]
    rw [emptyLines_succ]
    rfl
  | case2 | case3 => exact ⟨0, rfl⟩

theorem dropEmptyLines_lines_cons (f : Field) (fs : List Field) (rest : List UInt8) :
    dropEmptyLines (lines (f :: fs) ++ rest) = lines (f :: fs) ++ rest := by
  obtain ⟨b, more, hb⟩ := List.exists_cons_of_ne_nil f.bytes_ne_nil
  have hne : b ≠ 13 := fun h => f.return_notMem_bytes (h ▸ hb ▸ List.mem_cons_self)
  rw [Field.lines_cons, hb]
  exact dropEmptyLines_of_head hne _

/-! ## Frames -/

/-- Some bytes begin with a frame around a payload, and what follows it is the rest. -/
def Begins (limit : Nat) (input payload rest : List UInt8) : Prop :=
  ∃ (n : Nat) (fs : List Field) (last : Field),
    input = emptyLines n ++ lines fs ++ lineEnd ++ payload ++ rest ∧
    AllFit limit fs ∧ (fs.filter Field.isLength).getLast? = some last ∧
    payload.length = last.number

theorem front_eq_frame_iff {limit : Nat} {input payload rest : List UInt8} :
    front limit input = .frame payload rest ↔ Begins limit input payload rest := by
  constructor
  · intro h
    unfold front at h
    dsimp only at h
    rcases hh : headerBlock limit none (dropEmptyLines input) with fault | _ | ⟨_ | length, after⟩ <;>
      rw [hh] at h <;> dsimp only at h
    · cases h
    · cases h
    · cases h
    · split_ifs at h with hlt
      obtain ⟨rfl, rfl⟩ := Front.frame.inj h
      obtain ⟨fs, hlines, hall, htold⟩ := headerBlock_eq_ok_iff.1 hh
      rw [told, Option.or_none] at htold
      obtain ⟨last, hlast, rfl⟩ := Option.map_eq_some_iff.1 htold.symm
      obtain ⟨n, hn⟩ := exists_emptyLines input
      refine ⟨n, fs, last, ?_, hall, hlast, List.length_take_of_le (Nat.le_of_not_lt hlt)⟩
      conv_lhs => rw [hn, hlines]
      simp only [List.append_assoc, List.take_append_drop]
  · rintro ⟨n, fs, last, rfl, hall, hlast, hlength⟩
    have hblock : headerBlock limit none (lines fs ++ (lineEnd ++ (payload ++ rest))) =
        .ok (some (some payload.length, payload ++ rest)) := by
      refine headerBlock_eq_ok_iff.2 ⟨fs, rfl, hall, ?_⟩
      rw [told, hlast, Option.or_none, hlength]
      rfl
    have hdrop : dropEmptyLines (emptyLines n ++ lines fs ++ lineEnd ++ payload ++ rest) =
        lines fs ++ (lineEnd ++ (payload ++ rest)) := by
      simp only [List.append_assoc]
      rw [dropEmptyLines_emptyLines]
      cases fs with
      | nil => cases hlast
      | cons f fs => exact dropEmptyLines_lines_cons f fs _
    unfold front
    dsimp only
    rw [hdrop, hblock]
    dsimp only
    rw [if_neg (by simp), List.take_left, List.drop_left]

/-- A payload is no longer than the limit. -/
theorem Begins.length_le {limit : Nat} {input payload rest : List UInt8}
    (h : Begins limit input payload rest) : payload.length ≤ limit := by
  obtain ⟨n, fs, last, -, hall, hlast, hlength⟩ := h
  have hmem := List.mem_filter.1 (List.mem_of_getLast? hlast)
  exact hlength.trans_le (hall last hmem.1 hmem.2).within

/-- The decoder takes a payload and leaves the rest unread exactly if its unread bytes are empty
lines, the lines of some fields, an empty line, the payload and the rest, where at least one field
is about the length, each of these tells a number that fits 64 bits and is within the limit, and the
last of them tells the payload's length. So no payload is longer than the limit. -/
theorem takes_iff_begins (d : Decoder) (payload rest : List UInt8) :
    ((∃ d', d.next = (.ok (some payload), d') ∧ d'.unread = rest) ↔
      Begins d.limit d.unread payload rest) ∧
    ∀ d', d.next = (.ok (some payload), d') → payload.length ≤ d.limit := by
  have hiff : ∀ rest, (∃ d', d.next = (.ok (some payload), d') ∧ d'.unread = rest) ↔
      Begins d.limit d.unread payload rest := by
    intro rest
    rw [← front_eq_frame_iff]
    constructor
    · rintro ⟨d', hnext, rfl⟩
      exact (Decoder.front_of_next_some hnext).1
    · intro h
      obtain ⟨d', hnext, hrest, -⟩ := Decoder.next_of_front_frame h
      exact ⟨d', hnext, hrest⟩
  exact ⟨hiff rest, fun d' h => ((hiff d'.unread).1 ⟨d', h, rfl⟩).length_le⟩

end PeerRpc.Frame
