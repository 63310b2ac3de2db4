import FluentCensus.Decimal.Fixed

namespace FluentCensus.Decimal

def sizeUnits : List String := ["KiB", "MiB", "GiB", "TiB", "PiB", "EiB"]

/-- Three digits with a point among them or after them, from 999.5 on four digits and the point. -/
def threeDigits (x : Float) : List Char :=
  match [2, 1].find? fun places => (fixedText places x).length ≤ 4 with
  | some places => fixedText places x
  | none => fixedText 0 x ++ ['.']

/-- A number of bytes, at least 1024 of them, in the greatest unit that is not greater. What would
    round to 1024 of a unit counts as one of the next. -/
def sizeText (bytes : Nat) : String :=
  let rank := bytes.log2 / 10
  let amount := Float.ofNat bytes / Float.ofNat (1 <<< (10 * rank))
  let (rank, amount) := if 1023.5 ≤ amount then (rank + 1, amount / 1024) else (rank, amount)
  String.ofList (threeDigits amount) ++ " " ++ sizeUnits.getD (rank - 1) ""

end FluentCensus.Decimal
