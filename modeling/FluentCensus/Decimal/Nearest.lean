import FluentCensus.Decimal.Shortest

namespace FluentCensus.Decimal

/-- The power of two of the last place of the double nearest to a fraction: 53 binary digits from
    the first one on, but none below the power -1074. -/
def lastPlace (numerator denominator : Nat) : Int :=
  let size : Int := (numerator.log2 : Int) - denominator.log2
  let reached := denominator <<< size.toNat ≤ numerator <<< (-size).toNat
  max ((if reached then size else size - 1) - 52) (-1074)

def fieldsOf (numerator denominator : Nat) : Nat :=
  let place := lastPlace numerator denominator
  let mantissa := roundDiv (numerator <<< (-place).toNat) (denominator <<< place.toNat)
  min ((((place + 1074).toNat) <<< 52) + mantissa) 0x7ff0000000000000

/-- The double nearest to a decimal; a tie goes to the even mantissa. What begins at the power 310
    is infinite and what ends below the power -330 is zero, so that no greater power is computed. -/
def toFloat (d : Decimal) : Float :=
  let lead := d.exponent + (digitText d.digits).length
  let fields :=
    if d.digits = 0 ∨ lead < -330 then 0
    else if 310 < lead then 0x7ff0000000000000
    else fieldsOf (d.digits * Nat.pow 10 d.exponent.toNat) (Nat.pow 10 (-d.exponent).toNat)
  Float.ofBits (UInt64.ofNat (fields + if d.negative then 0x8000000000000000 else 0))

end FluentCensus.Decimal
