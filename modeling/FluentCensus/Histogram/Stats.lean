import FluentCensus.Histogram.Basic

namespace FluentCensus

/-- The numbers that the figures of a histogram are computed in: doubles when the program runs,
    exact rationals when its formulas are reasoned about. -/
class Quantity (α : Type) extends Add α, Sub α, Mul α, Div α where
  ofInt : Int → α
  ofScientific : Nat → Bool → Nat → α
  floor : α → Int
  less : α → α → Bool

instance : Quantity Float where
  ofInt := Float.ofInt
  ofScientific := OfScientific.ofScientific
  floor x := x.floor.toInt64.toInt
  less x y := x < y

instance : Quantity Rat where
  ofInt n := n
  ofScientific := OfScientific.ofScientific
  floor := Rat.floor
  less x y := x < y

structure Stats (α : Type) where
  chains : Int
  mean : α
  median : α
  p95 : α
  longest : Int
  /-- The share of the chains with at least two calls. -/
  chained : α
deriving DecidableEq

inductive StatsError where
  /-- A length or count does not fit into a signed word of 64 bits. -/
  | tooLarge
  | negativeCount
  /-- The list that repeats each length by its count would have fewer than no items. -/
  | negativeSize
  /-- That list, at eight bytes an item, would take more bytes than a word can count. -/
  | tooManyChains
  /-- There is no memory for a list of that many items. -/
  | outOfMemory (items : Nat)
deriving DecidableEq

namespace Stats

section Formulas

variable {α : Type} [Quantity α]

def lanes (sums : List α) : List α → List α × List α
  | a :: b :: c :: d :: e :: f :: g :: h :: rest =>
    lanes (sums.zipWith (· + ·) [a, b, c, d, e, f, g, h]) rest
  | rest => (sums, rest)

def blockSum (xs : List α) : α :=
  match xs with
  | a :: b :: c :: d :: e :: f :: g :: h :: rest =>
    match lanes [a, b, c, d, e, f, g, h] rest with
    | ([a, b, c, d, e, f, g, h], rest) =>
      rest.foldl (· + ·) (((a + b) + (c + d)) + ((e + f) + (g + h)))
    | (_, rest) => rest.foldl (· + ·) (Quantity.ofInt 0)
  | few => few.foldl (· + ·) (Quantity.ofInt 0)

/-- The sum by halves, which loses less to rounding than one running sum. The first half ends at
    a multiple of eight. -/
def pairwiseSum (xs : List α) : α :=
  if _few : xs.length ≤ 128 then blockSum xs
  else
    let half := xs.length / 2 / 8 * 8
    pairwiseSum (xs.take half) + pairwiseSum (xs.drop half)
termination_by xs.length
decreasing_by all_goals (simp; omega)

def meanOf (h : Histogram) : α :=
  pairwiseSum (h.entries.map fun e => Quantity.ofInt e.1 * Quantity.ofInt e.2) /
    pairwiseSum (h.counts.map Quantity.ofInt)

/-- The item at a position of the list in which each length is repeated by its count. The entries
    ascend, and a position past the end gives the last length. -/
def atRank : List (Int × Int) → Int → Int
  | [], _ => 0
  | [e], _ => e.1
  | e :: rest, rank => if rank < e.2 then e.1 else atRank rest (rank - e.2)

def medianOf (entries : List (Int × Int)) (n : Int) : α :=
  if n % 2 = 1 then Quantity.ofInt (atRank entries (n / 2))
  else (Quantity.ofInt (atRank entries (n / 2 - 1)) + Quantity.ofInt (atRank entries (n / 2))) /
    Quantity.ofInt 2

/-- Between two neighbours the value is reached from the nearer one. Their distance is taken in
    signed words of 64 bits. -/
def between (a b : Int) (t : α) : α :=
  let distance := Quantity.ofInt ((b - a).bmod 0x10000000000000000)
  if Quantity.less t (Quantity.ofScientific 5 true 1) then Quantity.ofInt a + distance * t
  else Quantity.ofInt b - distance * (Quantity.ofInt 1 - t)

def p95Of (entries : List (Int × Int)) (n : Int) : α :=
  let position : α := Quantity.ofInt (n - 1) * Quantity.ofScientific 95 true 2
  let low := Quantity.floor position
  between (atRank entries low) (atRank entries (low + 1)) (position - Quantity.ofInt low)

def chainedOf (h : Histogram) (n : Int) : α :=
  Quantity.ofInt (sumOf ((h.entries.filter (2 ≤ ·.1)).map Prod.snd)) / Quantity.ofInt n

end Formulas

def fits (n : Int) : Bool := -0x8000000000000000 ≤ n ∧ n < 0x8000000000000000

/-- The size of the list that repeats each length by its count is kept in a signed word. A single
    count is taken for that size before anything else is asked of it. -/
def checkSize (memory : Nat → Bool) (h : Histogram) : Except StatsError Unit :=
  let size := h.total.bmod 0x10000000000000000
  if h.entries.length ≠ 1 ∧ h.counts.any (· < 0) then .error .negativeCount
  else if size < 0 then .error .negativeSize
  else if 0x1000000000000000 ≤ size then .error .tooManyChains
  else if memory size.toNat then .ok ()
  else .error (.outOfMemory size.toNat)

/-- The figures of a histogram, whose entries may stand in any order. Counts that sum to zero
    give zeros whatever they are. -/
def ofHistogram (α : Type) [Quantity α] (memory : Nat → Bool) (h : Histogram) :
    Except StatsError (Stats α) :=
  if h.total = 0 then
    let zero : α := Quantity.ofInt 0
    .ok ⟨0, zero, zero, zero, 0, zero⟩
  else if !(h.lengths.all fits && h.counts.all fits) then .error .tooLarge
  else (checkSize memory h).map fun _ =>
    let n := h.total
    let sorted := (h.entries.mergeSort (·.1 ≤ ·.1)).filter (0 < ·.2)
    {
      chains := n
      mean := meanOf h
      median := medianOf sorted n
      p95 := p95Of sorted n
      longest := h.lengths.foldl max (h.lengths.headD 0)
      chained := chainedOf h n }

end Stats

end FluentCensus
