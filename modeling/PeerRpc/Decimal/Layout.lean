import PeerRpc.Decimal.Shortest

/-!
# Layout of a decimal number

Digits and the place of the point are written either in full, with at least one digit on either
side of the point, or with one digit before the point and an exponent of ten. A layout says for
which exponents a number is written in full.
-/

namespace PeerRpc.Decimal

/-- The exponents of the leading digit for which a number is written in full. -/
structure Layout where
  /-- The least such exponent. -/
  least : Int
  /-- The first exponent that is too large. -/
  past : Int

namespace Layout

/-- The digits with the point in its place and at least one digit on either side of it. -/
def full (d : Digits) : List Char :=
  let ds := d.digits.map digitChar
  if d.point ≤ 0 then '0' :: '.' :: List.replicate (-d.point).toNat '0' ++ ds
  else
    let whole := d.point.toNat
    if ds.length ≤ whole then ds ++ List.replicate (whole - ds.length) '0' ++ ['.', '0']
    else ds.take whole ++ '.' :: ds.drop whole

/-- One digit, the others after a point, and the exponent of ten with its sign. -/
def scientific (d : Digits) : List Char :=
  let exponent := d.point - 1
  let mantissa :=
    match d.digits.map digitChar with
    | [] => []
    | [c] => [c]
    | c :: cs => c :: '.' :: cs
  mantissa ++ 'e' :: (if exponent < 0 then '-' else '+') :: natural exponent.natAbs

/-- The text of a double in a layout. -/
def double (layout : Layout) (x : Double) : List Char :=
  let d := shortest x
  let exponent := d.point - 1
  let body :=
    if x.mantissa = 0 || (layout.least ≤ exponent && exponent < layout.past) then full d
    else scientific d
  if x.negative then '-' :: body else body

end Layout

end PeerRpc.Decimal
