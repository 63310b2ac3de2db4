namespace FluentCensus

/-- The number `digits · 10 ^ exponent` with its sign, which zero has too. -/
structure Decimal where
  negative : Bool := false
  digits : Nat
  exponent : Int := 0
deriving DecidableEq

namespace Decimal

/-- A quotient rounded to the nearest whole number; a half goes to the even neighbour. -/
def roundDiv (numerator denominator : Nat) : Nat :=
  let q := numerator / denominator
  let r := numerator % denominator
  if 2 * r < denominator ∨ (2 * r = denominator ∧ q % 2 = 0) then q else q + 1

/-- Trailing zeros move from the digits to the exponent, so that equal numbers of one sign become
    equal records. -/
def trim (d : Decimal) : Decimal :=
  if _zero : d.digits = 0 then { d with exponent := 0 }
  else if d.digits % 10 = 0 then trim { d with digits := d.digits / 10, exponent := d.exponent + 1 }
  else d
termination_by d.digits
decreasing_by omega

structure Layout where
  /-- The least and the greatest power of ten of the first digit that are written in place. -/
  leastPlain : Int
  mostPlain : Int
  /-- The exponent has a sign and at least this many digits. -/
  exponentWidth : Nat
deriving DecidableEq

def digitText (n : Nat) : List Char := Nat.toDigits 10 n

def zeros (n : Nat) : List Char := List.replicate n '0'

def plainText (digits : List Char) (lead : Int) : List Char :=
  if lead < 0 then '0' :: '.' :: (zeros (-lead - 1).toNat ++ digits)
  else
    let whole := (lead + 1).toNat
    if digits.length ≤ whole then digits ++ zeros (whole - digits.length) ++ ['.', '0']
    else digits.take whole ++ '.' :: digits.drop whole

/-- With an exponent: one digit stands before the point, and a point without digits after it is
    left out. -/
def scaledText (layout : Layout) (digits : List Char) (lead : Int) : List Char :=
  let power := digitText lead.natAbs
  digits.take 1 ++ (if digits.length ≤ 1 then [] else '.' :: digits.drop 1) ++
    'e' :: (if lead < 0 then '-' else '+') :: (zeros (layout.exponentWidth - power.length) ++ power)

def text (layout : Layout) (d : Decimal) : List Char :=
  let digits := digitText d.digits
  let lead := if d.digits = 0 then 0 else d.exponent + digits.length - 1
  (if d.negative then ['-'] else []) ++
    if layout.leastPlain ≤ lead ∧ lead ≤ layout.mostPlain then plainText digits lead
    else scaledText layout digits lead

end Decimal

end FluentCensus
