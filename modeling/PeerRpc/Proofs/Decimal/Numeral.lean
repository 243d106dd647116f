import PeerRpc.Decimal.Numeral
import PeerRpc.Proofs.Text.Utf8

/-!
# Reading back a numeral

The digits of a number stand for it (`value_digits`), there are only as many of them as its size
needs (`length_digits_le`), and the characters and bytes of its numeral spell them.
-/

namespace PeerRpc.Decimal

theorem value_append_singleton (ds : List Nat) (d : Nat) :
    value (ds ++ [d]) = 10 * value ds + d := by
  simp [value, List.foldl_append]

theorem value_digits (n : Nat) : value (digits n) = n := by
  fun_induction digits n with
  | case1 n h => simp [value]
  | case2 n h ih =>
    rw [value_append_singleton, ih]
    omega

theorem digits_ne_nil (n : Nat) : digits n ≠ [] := by
  unfold digits
  split_ifs <;> simp

theorem lt_of_mem_digits {n d : Nat} (h : d ∈ digits n) : d < 10 := by
  fun_induction digits n with
  | case1 n hn =>
    obtain rfl : d = n := by simpa using h
    exact hn
  | case2 n hn ih =>
    rcases List.mem_append.1 h with h | h
    · exact ih h
    · obtain rfl : d = n % 10 := by simpa using h
      omega

theorem length_digits_le {n k : Nat} (hk : 0 < k) (h : n < 10 ^ k) : (digits n).length ≤ k := by
  fun_induction digits n generalizing k with
  | case1 => exact hk
  | case2 n hn ih =>
    obtain _ | k := k
    · omega
    rw [List.length_append, List.length_singleton]
    rcases Nat.eq_zero_or_pos k with rfl | hk'
    · omega
    · have := ih hk' (by rw [Nat.pow_succ] at h; omega)
      omega

/-- A number other than zero has no leading zero. -/
theorem digits_head_ne_zero {n : Nat} (hn : n ≠ 0) : (digits n).head? ≠ some 0 := by
  fun_induction digits n with
  | case1 n h => simpa using hn
  | case2 n h ih =>
    have hne := digits_ne_nil (n / 10)
    rw [List.head?_append_of_ne_nil _ hne]
    exact ih (by omega)

/-! ## Characters and bytes -/

theorem toNat_digitChar {d : Nat} (h : d < 10) : (digitChar d).toNat = 48 + d := by
  unfold digitChar
  interval_cases d <;> rfl

theorem mem_natural {n : Nat} {c : Char} (h : c ∈ natural n) : 48 ≤ c.toNat ∧ c.toNat ≤ 57 := by
  obtain ⟨d, hd, rfl⟩ := List.mem_map.1 h
  have hlt := lt_of_mem_digits hd
  rw [toNat_digitChar hlt]
  omega

theorem natural_ne_nil (n : Nat) : natural n ≠ [] := by
  simpa [natural] using digits_ne_nil n

theorem map_sub_natural (n : Nat) : (natural n).map (fun c => c.toNat - 48) = digits n := by
  unfold natural
  rw [List.map_map]
  refine (List.map_congr_left fun d hd => ?_).trans (List.map_id _)
  rw [Function.comp_apply, toNat_digitChar (lt_of_mem_digits hd), Nat.add_sub_cancel_left, id]

theorem utf8OfChars_map_digitChar {ds : List Nat} (h : ∀ d ∈ ds, d < 10) :
    Text.utf8OfChars (ds.map digitChar) = ds.map fun d => UInt8.ofNat (48 + d) := by
  rw [Text.utf8OfChars_of_lt, List.map_map]
  · refine List.map_congr_left fun d hd => ?_
    rw [Function.comp_apply, toNat_digitChar (h d hd)]
  · intro c hc
    obtain ⟨d, hd, rfl⟩ := List.mem_map.1 hc
    have := h d hd
    rw [toNat_digitChar this]
    omega

theorem utf8OfChars_natural (n : Nat) :
    Text.utf8OfChars (natural n) = (digits n).map fun d => UInt8.ofNat (48 + d) :=
  utf8OfChars_map_digitChar fun _ => lt_of_mem_digits

end PeerRpc.Decimal
