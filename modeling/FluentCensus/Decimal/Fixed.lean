import FluentCensus.Decimal.Shortest

namespace FluentCensus.Decimal

/-- A finite double with a fixed number of decimal places, rounded from its exact value. -/
def fixedText (places : Nat) (x : Float) : List Char :=
  let b := Binary.ofFloat x
  let unit := Nat.pow 10 places
  let scaled := roundDiv (b.scale (4 * b.mantissa) * unit) b.denominator
  let whole := digitText (scaled / unit)
  let part := digitText (scaled % unit)
  (if b.negative then ['-'] else []) ++ whole ++
    if places = 0 then [] else '.' :: (zeros (places - part.length) ++ part)

def percentText (x : Float) : List Char := fixedText 1 (x * 100) ++ ['%']

end FluentCensus.Decimal
