import Mathlib
import PeerRpc.Tokens.Buffer

/-!
# The places of tokens

An array tells the place of each token relative to the one before. Its absolute line is the sum of
all steps down so far, and its character is the sum of the steps on its own line; `startOf` says so
for the last of some entries, without walking over the array. Reading the tokens of a range walks
over the array once and stops early. As long as no place exceeds 32 bits, places never go back, so
nothing is lost by stopping.

* `tokens_eq_overlapping`: the tokens of a range are those that a look at every entry gives.
-/

namespace PeerRpc

namespace Position

/-- Positions are ordered by line, then by character. -/
theorem before_iff (p q : Position) :
    p.before q = true ↔ p.line.toNat < q.line.toNat ∨
      p.line.toNat = q.line.toNat ∧ p.character.toNat < q.character.toNat := by
  simp [before, UInt32.lt_iff_toNat_lt, UInt32.toNat_inj]

end Position

namespace Tokens

/-- The five numbers that describe a token. -/
structure Entry where
  /-- The line, relative to that of the token before. -/
  deltaLine : UInt32
  /-- The first character, relative to that of the token before if it is on the same line. -/
  deltaStart : UInt32
  length : UInt32
  type : UInt32
  modifiers : UInt32
deriving DecidableEq, Repr

/-- The entries of an array. Numbers behind the last whole entry describe nothing. -/
def entries : List UInt32 → List Entry
  | deltaLine :: deltaStart :: length :: type :: modifiers :: rest =>
    ⟨deltaLine, deltaStart, length, type, modifiers⟩ :: entries rest
  | _ => []

/-- The line of the last of some entries: the sum of all steps down. -/
def lineOf (es : List Entry) : Nat :=
  (es.map fun e => e.deltaLine.toNat).sum

/-- The entries that are on the line of the last one. -/
def lastLine : List Entry → List Entry
  | [] => []
  | e :: es => if es.all fun e => e.deltaLine = 0 then e :: es else lastLine es

/-- The first character of the last of some entries: the sum of the steps on its line. -/
def characterOf (es : List Entry) : Nat :=
  ((lastLine es).map fun e => e.deltaStart.toNat).sum

/-- No line and no character that is reached on the way through some entries exceeds 32 bits. -/
def Bounded (es : List Entry) : Prop :=
  ∀ before ∈ es.inits, lineOf before < UInt32.size ∧ characterOf before < UInt32.size

instance (es : List Entry) : Decidable (Bounded es) :=
  inferInstanceAs (Decidable (∀ _ ∈ _, _))

/-- Where the token of the last of some entries starts. -/
def startOf (es : List Entry) : Position :=
  ⟨.ofNat (lineOf es), .ofNat (characterOf es)⟩

/-- The token of the last of some entries, if it overlaps a range and its type has a name. -/
def tokenOf? (legend : Legend) (range : Range) (es : List Entry) : Option Token := do
  let e ← es.getLast?
  let start := startOf es
  let stop : Position := ⟨start.line, start.character + e.length⟩
  if start.before range.stop && !stop.before range.start then
    (legend.types[e.type.toNat]?).map fun name => ⟨⟨start, stop⟩, name, []⟩
  else none

/-- The tokens of an array that overlap a range, each entry being looked at with all before it. -/
def overlapping (legend : Legend) (range : Range) (data : List UInt32) : List Token :=
  (entries data).inits.filterMap (tokenOf? legend range)

/-! ## Entries -/

theorem length_entries (data : List UInt32) : (entries data).length = data.length / stride := by
  induction data using entries.induct with
  | case1 a b c d e rest ih =>
    simp only [entries, List.length_cons, ih, stride]
    omega
  | case2 data h =>
    have hlt : data.length < 5 := by
      by_contra hge
      match data, hge with
      | a :: b :: c :: d :: e :: rest, _ => exact h a b c d e rest rfl
      | [], hge | [_], hge | [_, _], hge | [_, _, _], hge | [_, _, _, _], hge => simp at hge
    rw [entries]
    · simp only [List.length_nil, stride]
      omega
    · exact h

/-- What stands behind the whole entries makes no difference. -/
theorem entries_append {whole : List UInt32} (hwhole : whole.length % stride = 0)
    (rest : List UInt32) : entries (whole ++ rest) = entries whole ++ entries rest := by
  induction whole using entries.induct with
  | case1 a b c d e whole ih =>
    simp only [List.length_cons, stride] at hwhole ih
    simp only [List.cons_append, entries, ih (by omega)]
  | case2 whole h =>
    match whole, hwhole with
    | [], _ => rfl
    | a :: b :: c :: d :: e :: rest, _ => exact absurd rfl (h a b c d e rest)
    | [_], hwhole | [_, _], hwhole | [_, _, _], hwhole | [_, _, _, _], hwhole =>
      simp [stride] at hwhole

/-! ## Places -/

theorem lineOf_concat (es : List Entry) (e : Entry) :
    lineOf (es ++ [e]) = lineOf es + e.deltaLine.toNat := by
  simp [lineOf]

theorem lastLine_concat (es : List Entry) (e : Entry) :
    lastLine (es ++ [e]) = if e.deltaLine = 0 then lastLine es ++ [e] else [e] := by
  induction es with
  | nil => simp [lastLine]
  | cons e' es ih =>
    rw [List.cons_append, lastLine, List.all_append, ih, lastLine]
    by_cases he : e.deltaLine = 0
    · by_cases hes : es.all fun e => e.deltaLine = 0 <;> simp [he, hes]
    · simp [he]

theorem characterOf_concat (es : List Entry) (e : Entry) :
    characterOf (es ++ [e]) =
      if e.deltaLine = 0 then characterOf es + e.deltaStart.toNat else e.deltaStart.toNat := by
  rw [characterOf, lastLine_concat]
  split_ifs <;> simp [characterOf]

/-- The place of a token follows from that of the token before. -/
theorem startOf_concat (es : List Entry) (e : Entry) :
    startOf (es ++ [e]) =
      ⟨(startOf es).line + e.deltaLine,
        if e.deltaLine = 0 then (startOf es).character + e.deltaStart else e.deltaStart⟩ := by
  rw [startOf, lineOf_concat, characterOf_concat, startOf]
  split_ifs <;> simp [UInt32.ofNat_add]

section Bounded

variable {es before more : List Entry} {e : Entry}

theorem Bounded.of_isPrefix (h : Bounded es) (hb : before <+: es) : Bounded before := by
  intro before' hb'
  exact h before' ((List.mem_inits _ _).2 (((List.mem_inits _ _).1 hb').trans hb))

theorem Bounded.line_lt (h : Bounded es) : lineOf es < UInt32.size :=
  (h es ((List.mem_inits _ _).2 (List.prefix_refl es))).1

theorem Bounded.character_lt (h : Bounded es) : characterOf es < UInt32.size :=
  (h es ((List.mem_inits _ _).2 (List.prefix_refl es))).2

theorem Bounded.toNat_line (h : Bounded es) : (startOf es).line.toNat = lineOf es :=
  UInt32.toNat_ofNat_of_lt' h.line_lt

theorem Bounded.toNat_character (h : Bounded es) :
    (startOf es).character.toNat = characterOf es :=
  UInt32.toNat_ofNat_of_lt' h.character_lt

/-- A place is not before that of the token before. -/
theorem Bounded.before_of_concat (h : Bounded (es ++ [e])) {q : Position}
    (hq : (startOf (es ++ [e])).before q = true) : (startOf es).before q = true := by
  have hes := h.of_isPrefix (List.prefix_append es [e])
  rw [Position.before_iff, h.toNat_line, h.toNat_character, lineOf_concat, characterOf_concat] at hq
  rw [Position.before_iff, hes.toNat_line, hes.toNat_character]
  by_cases he : e.deltaLine = 0
  · simp only [he, if_true, UInt32.toNat_zero] at hq
    omega
  · have hpos : 0 < e.deltaLine.toNat := by
      rw [Nat.pos_iff_ne_zero, ← UInt32.toNat_zero]
      exact fun hz => he (UInt32.toNat_inj.1 hz)
    omega

/-- Tokens behind one that does not start before a position do not either. -/
theorem Bounded.before_of_append (h : Bounded (es ++ more)) {q : Position}
    (hq : (startOf (es ++ more)).before q = true) : (startOf es).before q = true := by
  induction more using List.reverseRecOn with
  | nil => simpa using hq
  | append_singleton more e ih =>
    rw [← List.append_assoc] at h hq
    apply ih
    · exact h.of_isPrefix (List.prefix_append _ _)
    · exact h.before_of_concat hq

end Bounded

/-! ## Reading -/

variable {legend : Legend} {range : Range}

theorem tokenOf?_concat (es : List Entry) (e : Entry) :
    tokenOf? legend range (es ++ [e]) =
      if (startOf (es ++ [e])).before range.stop &&
          !(Position.mk (startOf (es ++ [e])).line
            ((startOf (es ++ [e])).character + e.length)).before range.start then
        (legend.types[e.type.toNat]?).map fun name =>
          ⟨⟨startOf (es ++ [e]), (startOf (es ++ [e])).line,
            (startOf (es ++ [e])).character + e.length⟩, name, []⟩
      else none := by
  rw [tokenOf?, List.getLast?_concat]
  rfl

theorem tokenOf?_of_not_before {es : List Entry}
    (h : (startOf es).before range.stop = false) : tokenOf? legend range es = none := by
  rcases List.eq_nil_or_concat es with rfl | ⟨es, e, rfl⟩
  · rfl
  · rw [List.concat_eq_append] at h ⊢
    rw [tokenOf?_concat, h]
    rfl

/-- Reading one entry from the place of those before it. -/
theorem tokensFrom_cons (done : List Entry)
    (deltaLine deltaStart length type modifiers : UInt32) (rest : List UInt32) :
    Buffer.tokensFrom legend range (startOf done)
        (deltaLine :: deltaStart :: length :: type :: modifiers :: rest) =
      let es := done ++ [⟨deltaLine, deltaStart, length, type, modifiers⟩]
      if (startOf es).before range.stop then
        (tokenOf? legend range es).toList ++ Buffer.tokensFrom legend range (startOf es) rest
      else [] := by
  dsimp only
  rw [Buffer.tokensFrom, tokenOf?_concat, startOf_concat]
  dsimp only
  generalize Position.before _ range.stop = starts
  generalize Position.before _ range.start = stops
  cases starts with
  | false => rfl
  | true =>
    cases stops with
    | true => rfl
    | false => cases legend.types[type.toNat]? <;> rfl

theorem tail_inits_cons (e : Entry) (es : List Entry) :
    (e :: es).inits.tail = [e] :: es.inits.tail.map (e :: ·) := by
  cases es <;> simp

/-- Reading on from the place of some entries gives the tokens of the entries behind them. -/
theorem tokensFrom_eq (done : List Entry) (data : List UInt32)
    (h : Bounded (done ++ entries data)) :
    Buffer.tokensFrom legend range (startOf done) data =
      (entries data).inits.tail.filterMap fun es => tokenOf? legend range (done ++ es) := by
  induction data using entries.induct generalizing done with
  | case2 data hdata =>
    rw [Buffer.tokensFrom, entries]
    · rfl
    · exact hdata
    · exact hdata
  | case1 deltaLine deltaStart length type modifiers rest ih =>
    rw [entries] at h ⊢
    rw [List.append_cons] at h
    rw [tokensFrom_cons, tail_inits_cons, List.filterMap_cons, List.filterMap_map]
    have hothers := ih _ h
    have htail : ∀ e : Entry, (fun es => tokenOf? legend range (done ++ es)) ∘ (e :: ·) =
        fun es => tokenOf? legend range (done ++ [e] ++ es) :=
      fun e => funext fun es => congrArg (tokenOf? legend range) (List.append_cons done e es)
    rw [htail]
    dsimp only
    split_ifs with hstop
    · rw [hothers]
      cases tokenOf? legend range
        (done ++ [⟨deltaLine, deltaStart, length, type, modifiers⟩]) <;> rfl
    · rw [tokenOf?_of_not_before (Bool.eq_false_iff.2 hstop)]
      -- No later token starts before the end of the range, so none is lost.
      symm
      rw [List.filterMap_eq_nil_iff]
      intro es hes
      apply tokenOf?_of_not_before
      rw [Bool.eq_false_iff]
      intro hlater
      have hprefix : es <+: entries rest := (List.mem_inits _ _).1 (List.mem_of_mem_tail hes)
      have hbounded := h.of_isPrefix ((List.prefix_append_right_inj _).2 hprefix)
      exact hstop (hbounded.before_of_append hlater)

/-- The walk over the array finds what a look at every entry finds. -/
theorem tokensFrom_start {data : List UInt32} (h : Bounded (entries data)) :
    Buffer.tokensFrom legend range ⟨0, 0⟩ data = overlapping legend range data := by
  have hread : Buffer.tokensFrom legend range (startOf []) data =
      (entries data).inits.tail.filterMap (tokenOf? legend range) := tokensFrom_eq [] data h
  have hinits : (entries data).inits = [] :: (entries data).inits.tail := by
    cases entries data <;> simp
  rw [overlapping, hinits, List.filterMap_cons_none rfl]
  exact hread

/-- As long as no line and no character exceeds 32 bits, the tokens of a range are those of all
entries that start before the end of the range, do not stop before its start and have a type with a
name, in their order. The places are the absolute ones, whatever becomes of the entries before.
There is one entry for each whole token, and numbers behind the last of them make no difference. -/
theorem tokens_eq_overlapping (b : Buffer) (range : Range) (h : Bounded (entries b.data)) :
    b.tokens range = overlapping b.legend range b.data ∧
      (entries b.data).length = b.size ∧
      ∀ whole rest, b.data = whole ++ rest → whole.length = stride * b.size →
        ({ b with data := whole } : Buffer).tokens range = b.tokens range := by
  refine ⟨tokensFrom_start h, length_entries b.data, fun whole rest hdata hwhole => ?_⟩
  have hrest : entries rest = [] := by
    apply List.eq_nil_of_length_eq_zero
    rw [length_entries, Nat.div_eq_zero_iff]
    right
    have hlength := congrArg List.length hdata
    rw [List.length_append, hwhole, Buffer.size, stride] at hlength
    rw [stride]
    omega
  have hentries : entries b.data = entries whole := by
    rw [hdata, entries_append (by rw [hwhole, Nat.mul_mod_right]), hrest, List.append_nil]
  have hread : b.tokens range = overlapping b.legend range b.data := tokensFrom_start h
  rw [hentries] at h
  rw [hread, overlapping, hentries]
  exact tokensFrom_start h

/-- One token stops before the range, one has a type without a name, one is inside, one starts where
the range ends, and the last one is cut off. -/
theorem tokens_of_two_lines :
    let b : Buffer := ⟨⟨["name", "number"], []⟩,
      [0, 2, 3, 0, 0, 0, 5, 2, 9, 0, 1, 4, 6, 1, 0, 2, 0, 1, 0, 0, 7, 7], none⟩
    let range : Range := ⟨⟨0, 6⟩, ⟨3, 0⟩⟩
    Bounded (entries b.data) ∧ b.tokens range = [⟨⟨⟨1, 4⟩, ⟨1, 10⟩⟩, "number", []⟩] := by
  intro b range
  have hbounded : Bounded (entries b.data) := by decide
  have hread := (tokens_eq_overlapping b range hbounded).1
  exact ⟨hbounded, hread.trans (by decide)⟩

end Tokens

end PeerRpc
