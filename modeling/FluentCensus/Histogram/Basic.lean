namespace FluentCensus

def sumOf (ns : List Int) : Int := ns.foldr (· + ·) 0

/-- How often each length occurs, as entries in an order of their own. Lengths and counts are
    any integers; a length stands in at most one entry of a histogram that came from counting. -/
structure Histogram where
  entries : List (Int × Int) := []
deriving DecidableEq

namespace Histogram

def lengths (h : Histogram) : List Int := h.entries.map Prod.fst

def counts (h : Histogram) : List Int := h.entries.map Prod.snd

def total (h : Histogram) : Int := sumOf h.counts

def count (h : Histogram) (length : Int) : Int :=
  sumOf ((h.entries.filter (·.1 = length)).map Prod.snd)

def insertEntry (length amount : Int) : List (Int × Int) → List (Int × Int)
  | [] => [(length, amount)]
  | (l, n) :: rest =>
    if length < l then (length, amount) :: (l, n) :: rest
    else if length = l then (l, n + amount) :: rest
    else (l, n) :: insertEntry length amount rest

def bump (h : Histogram) (length amount : Int) : Histogram :=
  ⟨insertEntry length amount h.entries⟩

/-- Raise the count of every entry's length. The longest comes first, so that each one is entered at
    the head. -/
def ofEntries (entries : List (Int × Int)) : Histogram :=
  (entries.mergeSort fun a b => b.1 ≤ a.1).foldl (fun h e => h.bump e.1 e.2) {}

def ofLengths (lengths : List Int) : Histogram := ofEntries (lengths.map (·, 1))

/-- The sum of histograms, ascending and without the lengths whose counts cancel. -/
def merge (histograms : List Histogram) : Histogram :=
  ⟨(ofEntries (histograms.flatMap entries)).entries.filter (·.2 ≠ 0)⟩

end Histogram

end FluentCensus
