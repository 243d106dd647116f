import Mathlib.Data.List.DropRight
import PeerRpc.Decimal.Layout
import PeerRpc.Proofs.Decimal.Numeral

/-!
# How numbers are spelled

Integers and doubles, of any size and in any layout, are spelled alike: after the sign come digits
without a leading zero, then a fraction and an exponent of ten, each of which may be absent
(`Spelling`).

* `spelled_integer`, `spelled_double`: this is what is written for a number.
-/

namespace PeerRpc.Decimal

/-! ## Sizes -/

theorem lt_pow_length_digits (n : Nat) : n < 10 ^ (digits n).length := by
  fun_induction digits n with
  | case1 n h => simpa using h
  | case2 n h ih =>
    rw [List.length_append, List.length_singleton, Nat.pow_succ]
    omega

theorem pow_length_digits_le {n : Nat} (hn : n ≠ 0) : 10 ^ ((digits n).length - 1) ≤ n := by
  fun_induction digits n with
  | case1 n h =>
    rw [List.length_singleton, Nat.sub_self, Nat.pow_zero]
    omega
  | case2 n h ih =>
    have hpos := List.length_pos_of_ne_nil (digits_ne_nil (n / 10))
    have hle := ih (by omega)
    rw [List.length_append, List.length_singleton, Nat.add_sub_cancel,
      ← Nat.sub_one_add_one hpos.ne', Nat.pow_succ]
    omega

/-- A fraction is at least the power of ten that its magnitude tells, and so at least every smaller
one. -/
theorem le_of_le_magnitude {num den : Nat} (hnum : 0 < num) (hden : 0 < den) {unit : Int}
    (h : unit ≤ magnitude num den) :
    (0 ≤ unit → den * 10 ^ unit.natAbs ≤ num) ∧ (unit < 0 → den ≤ num * 10 ^ unit.natAbs) := by
  unfold magnitude at h
  split_ifs at h with hle
  · have hquotient : num / den ≠ 0 := (Nat.div_pos hle hden).ne'
    refine ⟨fun hunit => ?_, fun _ => hle.trans (Nat.le_mul_of_pos_right _ (by positivity))⟩
    calc den * 10 ^ unit.natAbs
        ≤ den * 10 ^ ((digits (num / den)).length - 1) := by
          refine Nat.mul_le_mul_left _ (Nat.pow_le_pow_right (by decide) ?_)
          omega
      _ ≤ den * (num / den) := Nat.mul_le_mul_left _ (pow_length_digits_le hquotient)
      _ ≤ num := Nat.mul_div_le _ _
  · have hpos := List.length_pos_of_ne_nil (digits_ne_nil ((den + num - 1) / num - 1))
    refine ⟨fun hunit => by omega, fun _ => ?_⟩
    -- The numerator goes into the denominator no more often than the power says, rounded up.
    have hceil : (den + num - 1) / num ≤ 10 ^ unit.natAbs := by
      have hlt := lt_pow_length_digits ((den + num - 1) / num - 1)
      have hpow : 10 ^ (digits ((den + num - 1) / num - 1)).length ≤ 10 ^ unit.natAbs :=
        Nat.pow_le_pow_right (by decide) (by omega)
      omega
    calc den ≤ num * ((den + num - 1) / num) := by
          have hdiv := Nat.div_add_mod (den + num - 1) num
          have hmod := Nat.mod_lt (den + num - 1) hnum
          omega
      _ ≤ num * 10 ^ unit.natAbs := Nat.mul_le_mul_left _ hceil

/-! ## Digits of a double -/

theorem fraction_pos {x : Double} (hx : x.mantissa ≠ 0) : 0 < x.fraction.1 ∧ 0 < x.fraction.2 := by
  unfold Double.fraction
  split_ifs
  · exact ⟨by rw [Nat.shiftLeft_eq]; positivity, Nat.one_pos⟩
  · exact ⟨Nat.pos_of_ne_zero hx, by rw [Nat.shiftLeft_eq]; positivity⟩

theorem ne_zero_of_quotient {n d : Nat} (hd : 0 < d) (hle : d ≤ n) {low high : Bool}
    {unit unit' : Int} {q : Nat}
    (h : (if low = true then some (n / d, unit)
      else if high = true then some (n / d + 1, unit) else none) = some (q, unit')) : q ≠ 0 := by
  have hpos := Nat.div_pos hle hd
  split_ifs at h
  all_goals
    obtain ⟨rfl, -⟩ := Prod.mk.inj (Option.some.inj h)
    omega

/-- On a grid that is no coarser than the leading digit, no neighbour of a double is zero. -/
theorem neighbour?_ne_zero {x : Double} (hx : x.mantissa ≠ 0) {count : Nat} (hcount : 0 < count)
    {q : Nat} {unit : Int} (h : neighbour? x count = some (q, unit)) : q ≠ 0 := by
  obtain ⟨hnum, hden⟩ := fraction_pos hx
  have hle : magnitude x.fraction.1 x.fraction.2 - count + 1 ≤
      magnitude x.fraction.1 x.fraction.2 := by omega
  obtain ⟨hup, hdown⟩ := le_of_le_magnitude hnum hden hle
  unfold neighbour? at h
  by_cases hunit : 0 ≤ magnitude x.fraction.1 x.fraction.2 - count + 1
  · simp only [hunit, if_true] at h
    refine ne_zero_of_quotient (Nat.mul_pos hden ?_) (hup hunit) h
    exact Nat.pow_pos (by decide)
  · simp only [hunit, if_false] at h
    exact ne_zero_of_quotient hden (hdown (not_le.1 hunit)) h

theorem firstNeighbour_ne_zero {x : Double} (hx : x.mantissa ≠ 0) (trials : Nat) {count : Nat}
    (hcount : 0 < count) : (firstNeighbour x trials count).1 ≠ 0 := by
  fun_induction firstNeighbour x trials count with
  | case1 => exact hx
  | case2 count trials found h => exact neighbour?_ne_zero hx hcount h
  | case3 count trials h ih => exact ih (Nat.succ_pos _)

theorem withoutTrailingZeros_isPrefix (ds : List Nat) : withoutTrailingZeros ds <+: ds :=
  List.rdropWhile_prefix _ _

theorem withoutTrailingZeros_ne_nil {ds : List Nat} (hds : ds ≠ []) (hlead : ds.head? ≠ some 0) :
    withoutTrailingZeros ds ≠ [] := by
  obtain ⟨d, ds, rfl⟩ := List.exists_cons_of_ne_nil hds
  intro hnil
  have hzero := List.rdropWhile_eq_nil_iff.1 hnil d List.mem_cons_self
  exact hlead (congrArg some (of_decide_eq_true hzero))

/-- Digits that can be laid out: there are some, and the first is zero only if it is the only one
and stands before the point. -/
structure Digits.Proper (d : Digits) : Prop where
  lt : ∀ n ∈ d.digits, n < 10
  ne_nil : d.digits ≠ []
  leading : d.digits.head? = some 0 → d.digits = [0] ∧ d.point = 1

/-- The digits of a double can be laid out. -/
theorem proper_shortest (x : Double) : (shortest x).Proper := by
  unfold shortest
  split_ifs with hx
  · exact ⟨by simp, by simp, fun _ => ⟨rfl, rfl⟩⟩
  · have hq := firstNeighbour_ne_zero hx 17 Nat.one_pos
    have hpart := withoutTrailingZeros_isPrefix (digits (firstNeighbour x 17 1).1)
    have hne := withoutTrailingZeros_ne_nil (digits_ne_nil _) (digits_head_ne_zero hq)
    refine ⟨fun n hn => lt_of_mem_digits (hpart.subset hn), hne, fun hzero => ?_⟩
    obtain ⟨more, hmore⟩ := hpart
    refine absurd ?_ (digits_head_ne_zero hq)
    rw [← hmore, List.head?_append_of_ne_nil _ hne]
    exact hzero

/-! ## Spelling -/

/-- A number as it is spelled, without its sign. -/
structure Spelling where
  whole : List Nat
  /-- The digits after the point; without any there is no point. -/
  fraction : List Nat
  /-- The exponent of ten, if one is written. -/
  exponent : Option Int
  digits_lt : ∀ d ∈ whole ++ fraction, d < 10
  whole_ne_nil : whole ≠ []
  /-- There is no leading zero. -/
  leading : whole.head? = some 0 → whole = [0]

namespace Spelling

/-- The characters of a fraction. -/
def fractionChars : List Nat → List Char
  | [] => []
  | ds => '.' :: ds.map digitChar

theorem fractionChars_of_ne_nil {ds : List Nat} (h : ds ≠ []) :
    fractionChars ds = '.' :: ds.map digitChar := by
  cases ds with
  | nil => exact absurd rfl h
  | cons => rfl

/-- The characters of an exponent. -/
def exponentChars : Option Int → List Char
  | none => []
  | some e => 'e' :: (if e < 0 then '-' else '+') :: natural e.natAbs

/-- The characters of a number. -/
def chars (n : Spelling) : List Char :=
  n.whole.map digitChar ++ fractionChars n.fraction ++ exponentChars n.exponent

end Spelling

/-- Characters that spell a number, perhaps after a minus sign. -/
def Spelled (cs : List Char) : Prop :=
  ∃ n : Spelling, cs = n.chars ∨ cs = '-' :: n.chars

/-- A number starts with a minus sign or a digit. -/
theorem Spelled.bytes_eq_cons {cs : List Char} (h : Spelled cs) :
    ∃ b more, Text.utf8OfChars cs = b :: more ∧
      (b = 0x2d ∨ 48 ≤ b.toNat ∧ b.toNat ≤ 57) := by
  obtain ⟨n, rfl | rfl⟩ := h
  · obtain ⟨d, ds, hd⟩ := List.exists_cons_of_ne_nil n.whole_ne_nil
    have hlt : d < 10 := n.digits_lt d (by simp [hd])
    have hone := utf8OfChars_map_digitChar (List.forall_mem_singleton.2 hlt)
    rw [List.map_singleton, List.map_singleton] at hone
    obtain ⟨cs, hcs⟩ : ∃ cs, n.chars = [digitChar d] ++ cs := by
      rw [Spelling.chars, hd]
      exact ⟨_, rfl⟩
    rw [hcs, Text.utf8OfChars_append, hone]
    refine ⟨_, _, rfl, .inr ?_⟩
    rw [UInt8.toNat_ofNat']
    omega
  · exact ⟨0x2d, _, Text.utf8OfChars_cons _ _, .inl rfl⟩

/-- What is written for an integer spells a number. -/
theorem spelled_integer (n : Int) : Spelled (integer n) := by
  let spelling : Spelling :=
    { whole := digits n.natAbs
      fraction := []
      exponent := none
      digits_lt := fun d hd => lt_of_mem_digits (by simpa using hd)
      whole_ne_nil := digits_ne_nil _
      leading := fun hzero => by
        by_cases hn : n.natAbs = 0
        · rw [hn, digits, if_pos (by decide)]
        · exact absurd hzero (digits_head_ne_zero hn) }
  have hchars : natural n.natAbs = spelling.chars := by
    simp [spelling, Spelling.chars, Spelling.fractionChars, Spelling.exponentChars, natural]
  refine ⟨spelling, ?_⟩
  rw [integer, hchars]
  split_ifs
  · exact .inr rfl
  · exact .inl rfl

namespace Digits.Proper

variable {d : Digits}

theorem exists_full (h : d.Proper) : ∃ n : Spelling, Layout.full d = n.chars := by
  obtain ⟨ds, point⟩ := d
  obtain ⟨hlt, hne, hlead⟩ := h
  have hzero : digitChar 0 = '0' := rfl
  by_cases hpoint : point ≤ 0
  · -- The point stands before all of the digits.
    refine ⟨⟨[0], List.replicate (-point).toNat 0 ++ ds, none, ?_, by simp, fun _ => rfl⟩, ?_⟩
    · intro n hn
      simp only [List.singleton_append, List.mem_cons, List.mem_append, List.mem_replicate] at hn
      rcases hn with rfl | ⟨-, rfl⟩ | hn
      · decide
      · decide
      · exact hlt n hn
    · simp [Layout.full, hpoint, Spelling.chars, Spelling.exponentChars, Spelling.fractionChars_of_ne_nil,
        hne, hzero]
  by_cases hwhole : ds.length ≤ point.toNat
  · -- It stands behind them.
    refine ⟨⟨ds ++ List.replicate (point.toNat - ds.length) 0, [0], none, ?_, by simp [hne], ?_⟩, ?_⟩
    · intro n hn
      simp only [List.mem_append, List.mem_replicate, List.mem_singleton] at hn
      rcases hn with (hn | ⟨-, rfl⟩) | rfl
      · exact hlt n hn
      · decide
      · decide
    · rw [List.head?_append_of_ne_nil _ hne]
      intro hzero
      obtain ⟨hds, hpoint⟩ := hlead hzero
      dsimp only at hds hpoint
      rw [hds, hpoint]
      rfl
    · simp [Layout.full, hpoint, hwhole, Spelling.chars, Spelling.exponentChars,
        Spelling.fractionChars, hzero]
  · -- It stands between two of them.
    have hdrop : ds.drop point.toNat ≠ [] := by simpa using hwhole
    have htake : ds.take point.toNat ≠ [] := by simp [hne]; omega
    refine ⟨⟨ds.take point.toNat, ds.drop point.toNat, none, ?_, htake, ?_⟩, ?_⟩
    · rw [List.take_append_drop]
      exact hlt
    · intro hzero
      have hhead : ds.head? = some 0 := by
        rw [← List.take_append_drop point.toNat ds, List.head?_append_of_ne_nil _ htake]
        exact hzero
      obtain ⟨hds, hpoint⟩ := hlead hhead
      dsimp only at hds hpoint
      rw [hds, hpoint] at hwhole
      exact absurd (Nat.le_refl 1) hwhole
    · simp [Layout.full, hpoint, hwhole, Spelling.chars, Spelling.exponentChars,
        Spelling.fractionChars_of_ne_nil, hdrop]

theorem exists_scientific (h : d.Proper) : ∃ n : Spelling, Layout.scientific d = n.chars := by
  obtain ⟨ds, point⟩ := d
  obtain ⟨hlt, hne, -⟩ := h
  obtain ⟨d, ds, rfl⟩ := List.exists_cons_of_ne_nil hne
  refine ⟨⟨[d], ds, some (point - 1), hlt, by simp, fun hzero => ?_⟩, ?_⟩
  · rw [Option.some.inj hzero]
  · cases ds with
    | nil => simp [Layout.scientific, Spelling.chars, Spelling.fractionChars, Spelling.exponentChars]
    | cons d' ds =>
      simp [Layout.scientific, Spelling.chars, Spelling.fractionChars, Spelling.exponentChars]

end Digits.Proper

/-- What is written for a double spells a number. -/
theorem spelled_double (layout : Layout) (x : Double) : Spelled (layout.double x) := by
  have hproper := proper_shortest x
  obtain ⟨n, hn⟩ : ∃ n : Spelling,
      (if x.mantissa = 0 || (layout.least ≤ (shortest x).point - 1 &&
        (shortest x).point - 1 < layout.past) then Layout.full (shortest x)
      else Layout.scientific (shortest x)) = n.chars := by
    split_ifs
    · exact hproper.exists_full
    · exact hproper.exists_scientific
  refine ⟨n, ?_⟩
  rw [Layout.double, hn]
  split_ifs
  · exact .inr rfl
  · exact .inl rfl

end PeerRpc.Decimal
