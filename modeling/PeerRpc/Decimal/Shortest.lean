import PeerRpc.Decimal.Double
import PeerRpc.Decimal.Numeral

/-!
# The shortest digits of a double

Of all decimal numbers that round to a given double, take those with the fewest digits, and of
these the nearest one. For one, two, … seventeen digits the two neighbours of the value on the
decimal grid are tested against the interval of numbers that round to the double; the interval's
ends belong to it exactly when the mantissa is even.
-/

namespace PeerRpc.Decimal

/-- A decimal number `0.d₁d₂… · 10 ^ point`, as its digits and the place of its point. -/
structure Digits where
  /-- The digits, the first and the last of them not zero unless there is one digit only. -/
  digits : List Nat
  /-- How many places the point stands to the right of the first digit's left side. -/
  point : Int
deriving DecidableEq, Repr

/-- The exponent of ten of the leading digit of the fraction `num / den`. -/
def magnitude (num den : Nat) : Int :=
  if den ≤ num then (digits (num / den)).length - 1
  else -((digits ((den + num - 1) / num - 1)).length : Int)

/-- Whether a fraction lies in the interval of numbers that round to a double. -/
def roundsTo (x : Double) (num den : Nat) : Bool :=
  let m := 4 * x.mantissa
  let low := if x.mantissa = 1 <<< 52 && x.exponent ≠ -1074 then m - 1 else m - 2
  let high := m + 2
  let e := x.exponent - 2
  let (n, d) := if 0 ≤ e then (num, den <<< e.toNat) else (num <<< (-e).toNat, den)
  if x.mantissa % 2 = 0 then low * d ≤ n && n ≤ high * d else low * d < n && n < high * d

/-- The nearer of the two neighbours of a double on the grid of `count` digits, if one rounds to
it; of two equally near ones the even one. -/
def neighbour? (x : Double) (count : Nat) : Option (Nat × Int) :=
  let (num, den) := x.fraction
  let unit : Int := magnitude num den - count + 1
  let step := Nat.pow 10 unit.natAbs
  let (n, d) := if 0 ≤ unit then (num, den * step) else (num * step, den)
  let fits (q : Nat) : Bool :=
    if 0 ≤ unit then roundsTo x (q * step) 1 else roundsTo x q step
  let below := n / d
  let above := below + 1
  let r := n % d
  let lowNearer := 2 * r < d || (2 * r = d && below % 2 = 0)
  if fits below && (lowNearer || !fits above) then some (below, unit)
  else if fits above then some (above, unit)
  else none

/-- The first neighbour found with `count`, `count + 1`, … digits, within a number of trials. -/
def firstNeighbour (x : Double) : Nat → Nat → Nat × Int
  | 0, _ => (x.mantissa, 0)
  | trials + 1, count =>
    match neighbour? x count with
    | some found => found
    | none => firstNeighbour x trials (count + 1)

/-- The digits of a list without the zeros at its end. -/
def withoutTrailingZeros (ds : List Nat) : List Nat :=
  (ds.reverse.dropWhile (· = 0)).reverse

/-- The fewest digits that round to a double, and of these the nearest. -/
def shortest (x : Double) : Digits :=
  if x.mantissa = 0 then ⟨[0], 1⟩
  else
    let (q, unit) := firstNeighbour x 17 1
    let ds := digits q
    ⟨withoutTrailingZeros ds, ds.length + unit⟩

end PeerRpc.Decimal
