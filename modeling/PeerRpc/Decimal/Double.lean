/-!
# Finite binary64 numbers

A double is a sign and a magnitude `mantissa · 2 ^ exponent` with a mantissa of at most 53 bits and
an exponent of at least -1074. Every operation takes the exact result as a fraction of natural
numbers and rounds it once, to the nearest double, a tie going to the even mantissa.
-/

namespace PeerRpc.Decimal

/-- A finite binary64 number `± mantissa · 2 ^ exponent`. -/
structure Double where
  /-- Whether the sign is minus; zero has a sign too. -/
  negative : Bool
  /-- The mantissa, below `2 ^ 53`. -/
  mantissa : Nat
  /-- The exponent of two, at least -1074. -/
  exponent : Int
deriving DecidableEq, Repr

namespace Double

/-- Zero with the given sign. -/
def zero (negative : Bool) : Double :=
  ⟨negative, 0, -1074⟩

/-- The magnitude as a fraction of natural numbers. -/
def fraction (x : Double) : Nat × Nat :=
  if 0 ≤ x.exponent then (x.mantissa <<< x.exponent.toNat, 1)
  else (x.mantissa, 1 <<< (-x.exponent).toNat)

/-- The quotient rounded to the nearest natural number, a tie to the even one. -/
def roundedQuotient (num den : Nat) : Nat :=
  let q := num / den
  let r := num % den
  if 2 * r < den || (2 * r = den && q % 2 = 0) then q else q + 1

/-- The exponent at which the fraction `num / den` has a mantissa of 53 bits, or the least one. -/
def exponentOf (num den : Nat) : Int :=
  let low : Int := Nat.log2 num - Nat.log2 den - 53
  let reached :=
    if 0 ≤ low then den <<< (53 + low.toNat) ≤ num
    else den <<< 53 ≤ num <<< (-low).toNat
  max (if reached then low + 1 else low) (-1074)

/-- The double nearest to the fraction `num / den`, if it is not beyond the largest one. -/
def nearest (negative : Bool) (num den : Nat) : Option Double :=
  if num = 0 then some (zero negative)
  else
    let e := exponentOf num den
    let m :=
      if 0 ≤ e then roundedQuotient num (den <<< e.toNat)
      else roundedQuotient (num <<< (-e).toNat) den
    let x : Double := if m = 1 <<< 53 then ⟨negative, 1 <<< 52, e + 1⟩ else ⟨negative, m, e⟩
    if x.exponent ≤ 971 then some x else none

/-- A double's product with a natural number that is itself a double. -/
def scaleUp (x : Double) (factor : Double) : Option Double :=
  let (a, b) := x.fraction
  let (c, d) := factor.fraction
  nearest x.negative (a * c) (b * d)

/-- A double's quotient by a natural number that is itself a double. -/
def scaleDown (x : Double) (divisor : Double) : Option Double :=
  let (a, b) := x.fraction
  let (c, d) := divisor.fraction
  nearest x.negative (a * d) (b * c)

/-- The double nearest to a power of ten. -/
def powerOfTen (k : Nat) : Option Double :=
  nearest false (Nat.pow 10 k) 1

end Double

end PeerRpc.Decimal
