import FluentCensus.Decimal.Basic

namespace FluentCensus

structure Binary where
  negative : Bool
  mantissa : Nat
  exponent : Int
  /-- The next smaller double is only half as far away as the next greater one. -/
  narrow : Bool
deriving DecidableEq

namespace Binary

def ofFloat (x : Float) : Binary :=
  let bits := x.toBits.toNat
  let fraction := bits % 0x10000000000000
  let field := (bits >>> 52) % 0x800
  { negative := bits >>> 63 = 1
    mantissa := if field = 0 then fraction else 0x10000000000000 + fraction
    exponent := (if field = 0 then 1 else Int.ofNat field) - 1075
    narrow := fraction = 0 ∧ 1 < field }

/-- The fraction with numerator `n · 2 ^ (exponent - 2)`, in units of which the value and the ends
    of its rounding interval are whole. -/
def scale (b : Binary) (n : Nat) : Nat := n <<< (b.exponent - 2).toNat

def denominator (b : Binary) : Nat := 1 <<< (2 - b.exponent).toNat

def lower (b : Binary) : Nat := b.scale (4 * b.mantissa - if b.narrow then 1 else 2)

def upper (b : Binary) : Nat := b.scale (4 * b.mantissa + 2)

/-- Whether `point · 10 ^ power` rounds to the value; the ends do so if the mantissa is even. -/
def reads (b : Binary) (point : Nat) (power : Int) : Bool :=
  let p := point * Nat.pow 10 power.toNat * b.denominator
  let unit := Nat.pow 10 (-power).toNat
  if b.mantissa % 2 = 0 then b.lower * unit ≤ p ∧ p ≤ b.upper * unit
  else b.lower * unit < p ∧ p < b.upper * unit

/-- The point of the grid of multiples of `10 ^ power` that reads back as the value: of the two
    points around the value the nearer one, if any reads back at all. -/
def onGrid? (b : Binary) (power : Int) : Option Decimal :=
  let value := b.scale (4 * b.mantissa) * Nat.pow 10 (-power).toNat
  let unit := b.denominator * Nat.pow 10 power.toNat
  let below := value / unit
  let nearest := Decimal.roundDiv value unit
  let other := if nearest = below then below + 1 else below
  ([nearest, other].find? (b.reads · power)).map (⟨b.negative, ·, power⟩)

/-- The fewest digits that read back, and among those the nearest to the value: the first hit
    on ever finer grids. Eighteen powers below the first digit always hold a hit, and the first
    digit of a double is nowhere below the power -324. -/
def shortest (b : Binary) : Decimal :=
  if b.mantissa = 0 then ⟨b.negative, 0, 0⟩
  else
    let top : Int := (Decimal.digitText (b.upper / b.denominator)).length
    match (List.range 345).findSome? fun (i : Nat) => b.onGrid? (top - (i : Int)) with
    | some d => d.trim
    | none => ⟨b.negative, 0, 0⟩

end Binary

def Decimal.ofFloat (x : Float) : Decimal := (Binary.ofFloat x).shortest

end FluentCensus
