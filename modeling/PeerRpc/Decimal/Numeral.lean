/-!
# Decimal numerals

The digits of a natural number, most significant first and without leading zeros, and the number
that a run of digits stands for.
-/

namespace PeerRpc.Decimal

/-- The character of a digit below ten. -/
def digitChar (d : Nat) : Char :=
  Char.ofNat (48 + d)

/-- The decimal digits of a number, most significant first. -/
def digits (n : Nat) : List Nat :=
  if n < 10 then [n] else digits (n / 10) ++ [n % 10]

/-- The decimal numeral of a natural number. -/
def natural (n : Nat) : List Char :=
  (digits n).map digitChar

/-- The decimal numeral of an integer, with a minus sign when it is negative. -/
def integer (n : Int) : List Char :=
  if n < 0 then '-' :: natural n.natAbs else natural n.natAbs

/-- The number that a run of digits stands for. -/
def value (ds : List Nat) : Nat :=
  ds.foldl (fun n d => 10 * n + d) 0

/-- The number that a run of digits stands for, if it is not above a bound. -/
def valueWithin? (bound : Nat) (ds : List Nat) : Option Nat :=
  ds.foldlM (fun n d => if 10 * n + d ≤ bound then some (10 * n + d) else none) 0

theorem le_foldl_digits (ds : List Nat) (n : Nat) : n ≤ ds.foldl (fun n d => 10 * n + d) n := by
  induction ds generalizing n with
  | nil => simp
  | cons d ds ih =>
    have := ih (10 * n + d)
    simp only [List.foldl_cons]
    omega

theorem valueWithin?_eq (bound : Nat) (ds : List Nat) :
    valueWithin? bound ds = if value ds ≤ bound then some (value ds) else none := by
  suffices h : ∀ n ≤ bound,
      ds.foldlM (fun n d => if 10 * n + d ≤ bound then some (10 * n + d) else none) n =
        if ds.foldl (fun n d => 10 * n + d) n ≤ bound then
          some (ds.foldl (fun n d => 10 * n + d) n)
        else none from h 0 (Nat.zero_le _)
  induction ds with
  | nil =>
    intro n hn
    simp [hn]
  | cons d ds ih =>
    intro n _
    by_cases hd : 10 * n + d ≤ bound
    · rw [List.foldlM_cons, if_pos hd]
      exact ih _ hd
    · have := le_foldl_digits ds (10 * n + d)
      have hb : ¬ ds.foldl (fun n d => 10 * n + d) (10 * n + d) ≤ bound := by omega
      rw [List.foldlM_cons, if_neg hd, List.foldl_cons, if_neg hb]
      rfl

/-- The digit that a byte spells, if it is one of `0` to `9`. -/
def digitOf? (b : UInt8) : Option Nat :=
  if 48 ≤ b.toNat && b.toNat ≤ 57 then some (b.toNat - 48) else none

/-- The digits at the front of some bytes, and the bytes after them. -/
def run : List UInt8 → List Nat × List UInt8
  | [] => ([], [])
  | b :: rest =>
    match digitOf? b with
    | none => ([], b :: rest)
    | some d => let (ds, after) := run rest; (d :: ds, after)

end PeerRpc.Decimal
