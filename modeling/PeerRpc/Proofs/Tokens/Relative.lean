import Mathlib
import PeerRpc.Proofs.Tokens.Places

/-!
# Relative places

A server writes the tokens of a document in the order of their places, each of them relative to the
one before (`relative`). The reader adds the numbers up again in 32 bits. Its running place is that
of the token before as long as the tokens are in order, and no sum wraps around as long as every
place that was written fits.

* `tokens_of_relative`: reading the whole document gives back the tokens that were written.
-/

namespace PeerRpc

/-- A position is at a line and a character. -/
def Position.At (p : Position) (line character : Nat) : Prop :=
  p.line.toNat = line ∧ p.character.toNat = character

namespace Tokens

/-- A token by its absolute place. -/
structure Placed where
  line : Nat
  start : Nat
  length : Nat
  type : Nat
  modifiers : Nat
deriving DecidableEq, Repr

namespace Placed

/-- The token does not start before a place. -/
def From (line start : Nat) (t : Placed) : Prop :=
  line < t.line ∨ line = t.line ∧ start ≤ t.start

instance (line start : Nat) (t : Placed) : Decidable (t.From line start) :=
  inferInstanceAs (Decidable (_ ∨ _))

/-- The numbers of a token, relative to the place of the token before. -/
def numbers (line start : Nat) (t : Placed) : List Nat :=
  [t.line - line, if t.line = line then t.start - start else t.start, t.length, t.type, t.modifiers]

/-- What has been read is the token: its place and the name of its type. -/
structure Shown (legend : Legend) (t : Placed) (token : Token) : Prop where
  start : token.range.start.At t.line t.start
  stop : token.range.stop.At t.line (t.start + t.length)
  type : legend.types[t.type]? = some token.type
  modifiers : token.modifiers = []

end Placed

/-- The numbers of some tokens, the first one relative to a place. -/
def relative : Nat → Nat → List Placed → List Nat
  | _, _, [] => []
  | line, start, t :: ts => t.numbers line start ++ relative t.line t.start ts

/-- The line and the character of the last position there is. -/
def lastIndex : Nat := UInt32.size - 1

/-- From the first position there is to the last one. -/
def wholeDocument : Range :=
  ⟨⟨0, 0⟩, ⟨.ofNat lastIndex, .ofNat lastIndex⟩⟩

/-- Tokens that a server can write. -/
structure Writable (legend : Legend) (ts : List Placed) : Prop where
  /-- They are in the order of their places; some may start together. -/
  ordered : ts.Pairwise fun t t' => t'.From t.line t.start
  /-- No token reaches behind the last character of a line. -/
  fits : ∀ t ∈ ts, t.start + t.length < UInt32.size
  named : ∀ t ∈ ts, t.type < legend.types.length
  /-- No token starts at the last position there is, or behind it. -/
  below : ∀ t ∈ ts, t.line < lastIndex ∨ t.line = lastIndex ∧ t.start < lastIndex

theorem Writable.tail {legend : Legend} {t : Placed} {ts : List Placed}
    (h : Writable legend (t :: ts)) : Writable legend ts where
  ordered := h.ordered.tail
  fits t' ht := h.fits t' (List.mem_cons_of_mem t ht)
  named t' ht := h.named t' (List.mem_cons_of_mem t ht)
  below t' ht := h.below t' (List.mem_cons_of_mem t ht)

/-! ## One token -/

section Step

variable {legend : Legend} {line start : Nat} {before : Position} {t : Placed}
  {deltaLine deltaStart length type : UInt32}

/-- Adding the relative numbers to the running place gives the token's. -/
theorem at_of_relative (hbefore : before.At line start) (hfrom : t.From line start)
    (hline : t.line < UInt32.size) (hstart : t.start < UInt32.size)
    (hdl : deltaLine.toNat = t.line - line)
    (hds : deltaStart.toNat = if t.line = line then t.start - start else t.start) :
    Position.At ⟨before.line + deltaLine,
      if deltaLine = 0 then before.character + deltaStart else deltaStart⟩ t.line t.start := by
  obtain ⟨hl, hc⟩ := hbefore
  have hsize : UInt32.size = 2 ^ 32 := rfl
  have hzero : deltaLine = 0 ↔ t.line = line := by
    rw [← UInt32.toNat_inj, hdl, UInt32.toNat_zero]
    rcases hfrom with h | h <;> omega
  constructor
  · rw [UInt32.toNat_add, hl, hdl]
    rcases hfrom with h | h <;> omega
  · by_cases h : t.line = line
    · rw [if_pos h] at hds
      rw [if_pos (hzero.2 h), UInt32.toNat_add, hc, hds]
      rcases hfrom with h' | h' <;> omega
    · rw [if_neg h] at hds
      rw [if_neg fun h' => h (hzero.1 h'), hds]

/-- A token whose place is known is read if it starts before the last position there is. -/
theorem tokensFrom_whole (hat : Position.At ⟨before.line + deltaLine,
      if deltaLine = 0 then before.character + deltaStart else deltaStart⟩ t.line t.start)
    (hbelow : t.line < lastIndex ∨ t.line = lastIndex ∧ t.start < lastIndex)
    (hfits : t.start + t.length < UInt32.size) (hnamed : t.type < legend.types.length)
    (hlength : length.toNat = t.length) (htype : type.toNat = t.type) (modifiers : UInt32)
    (rest : List UInt32) :
    ∃ token place, t.Shown legend token ∧ place.At t.line t.start ∧
      Buffer.tokensFrom legend wholeDocument before
          (deltaLine :: deltaStart :: length :: type :: modifiers :: rest) =
        token :: Buffer.tokensFrom legend wholeDocument place rest := by
  rw [Buffer.tokensFrom]
  generalize before.line + deltaLine = l at hat ⊢
  generalize (if deltaLine = 0 then before.character + deltaStart else deltaStart) = c at hat ⊢
  obtain ⟨hl, hc⟩ := hat
  dsimp only at hl hc ⊢
  have hname : legend.types[type.toNat]? = some legend.types[t.type] := by
    rw [htype]
    exact List.getElem?_eq_getElem hnamed
  have hlast : (UInt32.ofNat lastIndex).toNat = lastIndex := rfl
  have hstarts : Position.before ⟨l, c⟩ wholeDocument.stop = true := by
    rw [Position.before_iff]
    simp only [wholeDocument, hlast, hl, hc]
    exact hbelow
  have hstops : Position.before ⟨l, c + length⟩ wholeDocument.start = false := by
    rw [Bool.eq_false_iff, ne_eq, Position.before_iff]
    simp [wholeDocument]
  rw [hstarts, hstops, hname]
  refine ⟨_, _, ⟨⟨hl, hc⟩, ⟨hl, ?_⟩, List.getElem?_eq_getElem hnamed, rfl⟩, ⟨hl, hc⟩, rfl⟩
  have hsize : UInt32.size = 2 ^ 32 := rfl
  show (c + length).toNat = _
  rw [UInt32.toNat_add, hc, hlength]
  omega

end Step

/-! ## All tokens -/

/-- Reading on from the place of the token before. -/
theorem tokensFrom_relative {legend : Legend} {ts : List Placed} {line start : Nat}
    {before : Position} {data : List UInt32} (h : Writable legend ts)
    (hbefore : before.At line start) (hfrom : ∀ t ∈ ts, t.From line start)
    (hdata : data.map UInt32.toNat = relative line start ts) :
    List.Forall₂ (Placed.Shown legend) ts
      (Buffer.tokensFrom legend wholeDocument before data) := by
  induction ts generalizing line start before data with
  | nil =>
    obtain rfl : data = [] := List.map_eq_nil_iff.1 hdata
    exact .nil
  | cons t ts ih =>
    simp only [relative, Placed.numbers, List.cons_append, List.nil_append,
      List.map_eq_cons_iff] at hdata
    obtain ⟨deltaLine, _, rfl, hdl, deltaStart, _, rfl, hds, length, _, rfl, hlength, type, _, rfl,
      htype, modifiers, rest, rfl, -, hrest⟩ := hdata
    have ht := List.mem_cons_self (a := t) (l := ts)
    have hbelow := h.below t ht
    have hfits := h.fits t ht
    have hlast : lastIndex < UInt32.size := by decide
    have hat := at_of_relative hbefore (hfrom t ht) (by omega) (by omega) hdl hds
    obtain ⟨token, place, hshown, hplace, hread⟩ :=
      tokensFrom_whole hat hbelow hfits (h.named t ht) hlength htype modifiers rest
    rw [hread]
    exact .cons hshown (ih h.tail hplace (List.pairwise_cons.1 h.ordered).1 hrest)

/-- The array holds the numbers of some tokens, each relative to the one before and the first one
to the beginning of the document. The tokens of the whole document are then these tokens, one for
each and in their order, at the places where they were and with the names of their types. -/
theorem tokens_of_relative (b : Buffer) (ts : List Placed) (h : Writable b.legend ts)
    (hdata : b.data.map UInt32.toNat = relative 0 0 ts) :
    List.Forall₂ (Placed.Shown b.legend) ts (b.tokens wholeDocument) := by
  have hfrom : ∀ t ∈ ts, t.From 0 0 := by
    intro t _
    unfold Placed.From
    omega
  exact tokensFrom_relative h ⟨rfl, rfl⟩ hfrom hdata

/-- Two tokens start together, and the last one stops at the last character there is. -/
theorem tokens_of_relative_at_end :
    let b : Buffer := ⟨⟨["name", "number"], []⟩,
      [0, 2, 3, 0, 0, 0, 0, 1, 1, 0, 4294967295, 4294967290, 5, 1, 2], none⟩
    let ts : List Placed := [⟨0, 2, 3, 0, 0⟩, ⟨0, 2, 1, 1, 0⟩, ⟨4294967295, 4294967290, 5, 1, 2⟩]
    Writable b.legend ts ∧ b.data.map UInt32.toNat = relative 0 0 ts ∧
      List.Forall₂ (Placed.Shown b.legend) ts (b.tokens wholeDocument) := by
  intro b ts
  have hwritable : Writable b.legend ts := by
    constructor <;> decide
  exact ⟨hwritable, by decide, tokens_of_relative b ts hwritable (by decide)⟩

end Tokens

end PeerRpc
