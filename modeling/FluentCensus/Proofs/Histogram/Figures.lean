import FluentCensus.Proofs.Histogram.Expansion
import FluentCensus.Proofs.Histogram.Ranks
import FluentCensus.Proofs.Histogram.Sum
import Mathlib

namespace FluentCensus

namespace Stats

section Formulas

variable {items : List Int} {entries : List (Int × Int)}

/-- The entries stand for the items: each length as often as it is among them. -/
structure Counts (entries : List (Int × Int)) (items : List Int) : Prop where
  positive : ∀ e ∈ entries, 0 < e.2
  counted : ∀ length, Histogram.count ⟨entries⟩ length = items.count length

theorem Counts.expanded (counts : Counts entries items) :
    (Histogram.expanded entries).Perm items := by
  rw [List.perm_iff_count]
  intro length
  have same := Histogram.expanded_count counts.positive length
  rw [counts.counted] at same
  exact_mod_cast same

theorem Counts.atRank (counts : Counts entries items) (ascending : Histogram.Ascending entries)
    (rank : Nat) : Stats.atRank entries rank = ranked items rank := by
  have sorted : Histogram.expanded entries = items.mergeSort (· ≤ ·) := by
    refine (counts.expanded.trans (List.mergeSort_perm _ _).symm).eq_of_pairwise
      (fun _ _ _ _ => le_antisymm) (Histogram.expanded_ascending ascending)
      List.sortedLE_mergeSort.pairwise
  rw [Histogram.atRank_expanded counts.positive, sorted, List.length_mergeSort, ranked]

theorem between_line {a b : Int} (rises : a ≤ b) (close : b - a < 0x8000000000000000) (t : Rat) :
    between a b t = a + ((b : Rat) - a) * t := by
  have distance : (b - a).bmod 0x10000000000000000 = b - a :=
    Int.bmod_eq_of_le (by omega) (by omega)
  have line : between a b t =
      if Quantity.less t (Quantity.ofScientific 5 true 1) then (a : Rat) + ((b - a : Int) : Rat) * t
      else (b : Rat) - ((b - a : Int) : Rat) * (1 - t) := by
    unfold between
    rw [distance]
    rfl
  rw [line]
  push_cast
  split <;> ring

theorem position_most (n : Nat) :
    (Quantity.ofInt ((n : Int) - 1) * Quantity.ofScientific 95 true 2 : Rat) =
      19 * ((n : Rat) - 1) / 20 := by
  have parts : (Quantity.ofInt ((n : Int) - 1) * Quantity.ofScientific 95 true 2 : Rat) =
    (((n : Int) - 1 : Int) : Rat) * 0.95 := rfl
  rw [parts]
  push_cast
  ring

theorem Counts.medianOf (counts : Counts entries items) (ascending : Histogram.Ascending entries)
    (filled : items ≠ []) :
    Stats.medianOf entries items.length = fromBelow items (((items.length : Rat) - 1) / 2) := by
  have nonempty := List.length_pos_iff.mpr filled
  have form : (Stats.medianOf entries items.length : Rat) =
      if (items.length : Int) % 2 = 1 then (Stats.atRank entries (items.length / 2) : Rat)
      else ((Stats.atRank entries (items.length / 2 - 1) : Rat) +
        (Stats.atRank entries (items.length / 2) : Rat)) / 2 := rfl
  rw [form]
  rcases Nat.even_or_odd' items.length with ⟨half, even | odd⟩
  · obtain ⟨low, rfl⟩ := Nat.exists_eq_succ_of_ne_zero (show half ≠ 0 by omega)
    have first : (items.length : Int) / 2 - 1 = (low : Nat) := by omega
    have second : (items.length : Int) / 2 = (low + 1 : Nat) := by omega
    have position : ((items.length : Rat) - 1) / 2 = low + 1 / 2 := by
      rw [even]
      push_cast
      ring
    rw [if_neg (by omega), first, second, counts.atRank ascending, counts.atRank ascending,
      position, fromBelow_half]
  · have middle : (items.length : Int) / 2 = half := by omega
    have position : ((items.length : Rat) - 1) / 2 = half := by
      rw [odd]
      push_cast
      ring
    rw [if_pos (by omega), middle, counts.atRank ascending, position, fromBelow_natCast]

theorem Counts.p95Of (counts : Counts entries items) (ascending : Histogram.Ascending entries)
    (filled : items ≠ []) (bounded : ∀ x ∈ items, 0 < x ∧ x < 0x8000000000000000) :
    Stats.p95Of entries items.length =
      fromBelow items (19 * ((items.length : Rat) - 1) / 20) := by
  have nonempty : (1 : Rat) ≤ items.length := by exact_mod_cast List.length_pos_iff.mpr filled
  have start : 0 ≤ 19 * ((items.length : Rat) - 1) / 20 := by linarith
  have form : (Stats.p95Of entries items.length : Rat) =
      let position : Rat :=
        Quantity.ofInt ((items.length : Int) - 1) * Quantity.ofScientific 95 true 2
      between (Stats.atRank entries ⌊position⌋) (Stats.atRank entries (⌊position⌋ + 1))
        (position - (⌊position⌋ : Rat)) := rfl
  rw [form, position_most]
  dsimp only
  have low : ⌊19 * ((items.length : Rat) - 1) / 20⌋ =
    (⌊19 * ((items.length : Rat) - 1) / 20⌋₊ : Nat) := (Int.natCast_floor_eq_floor start).symm
  have next (rank : Nat) : (rank : Int) + 1 = (rank + 1 : Nat) := rfl
  rw [low, next, counts.atRank ascending, counts.atRank ascending]
  have below := bounded _ (ranked_mem filled ⌊19 * ((items.length : Rat) - 1) / 20⌋₊)
  have above := bounded _ (ranked_mem filled (⌊19 * ((items.length : Rat) - 1) / 20⌋₊ + 1))
  rw [between_line (ranked_mono (Nat.le_add_right _ 1)) (by omega)]
  rfl

theorem Counts.total {h : Histogram} (counts : Counts h.entries items) :
    h.total = items.length := by
  have all := Histogram.countP_expanded counts.positive fun _ => true
  rw [List.countP_true, counts.expanded.length_eq, List.filter_true] at all
  exact all.symm

theorem Counts.chainedOf {h : Histogram} (counts : Counts h.entries items) :
    Stats.chainedOf h items.length = (items.countP (2 ≤ ·) : Rat) / items.length := by
  have long := Histogram.countP_expanded counts.positive (2 ≤ ·)
  rw [counts.expanded.countP_eq] at long
  have form : (Stats.chainedOf h items.length : Rat) =
    (sumOf ((h.entries.filter (2 ≤ ·.1)).map Prod.snd) : Rat) / (items.length : Int) := rfl
  rw [form, ← long]
  rfl

theorem cast_sumOf (ns : List Int) : (sumOf ns : Rat) = (ns.map (Int.cast : Int → Rat)).sum := by
  induction ns with
  | nil => rfl
  | cons n rest ih =>
    have whole : sumOf (n :: rest) = n + sumOf rest := rfl
    rw [whole, Int.cast_add, ih, List.map_cons, List.sum_cons]

theorem Counts.meanOf {h : Histogram} (counts : Counts h.entries items) :
    Stats.meanOf h = (items.sum : Rat) / items.length := by
  have form : (Stats.meanOf h : Rat) =
    pairwiseSum (h.entries.map fun e => (e.1 : Rat) * (e.2 : Rat)) /
      pairwiseSum (h.counts.map (Int.cast : Int → Rat)) := rfl
  have sum : (sumOf items : Rat) = (items.sum : Rat) := rfl
  rw [form, pairwiseSum_sum, pairwiseSum_sum, ← cast_sumOf h.counts, ← Histogram.total,
    counts.total, ← Histogram.sum_expanded counts.positive, (counts.expanded.map _).sum_eq,
    ← cast_sumOf, sum]
  rfl

theorem Counts.mem_lengths {h : Histogram} (counts : Counts h.entries items) (x : Int) :
    x ∈ h.lengths ↔ x ∈ items := by
  rw [← counts.expanded.mem_iff, Histogram.expanded, List.mem_flatMap, Histogram.lengths,
    List.mem_map]
  refine exists_congr fun e => and_congr_right fun member => ?_
  rw [List.mem_replicate]
  have positive := counts.positive e member
  constructor
  · rintro rfl
    exact ⟨by omega, rfl⟩
  · exact fun found => found.2.symm

theorem Counts.longest {h : Histogram} (counts : Counts h.entries items) (filled : items ≠ []) :
    items.max? = some (h.lengths.foldl max (h.lengths.headD 0)) := by
  have greatest : h.lengths.max? = some (h.lengths.foldl max (h.lengths.headD 0)) := by
    cases found : h.lengths with
    | nil =>
      obtain ⟨x, member⟩ := List.exists_mem_of_ne_nil items filled
      rw [← counts.mem_lengths, found] at member
      cases member
    | cons first rest => rw [List.max?_cons', List.headD_cons, List.foldl_cons, max_self]
  rw [List.max?_eq_some_iff] at greatest ⊢
  simpa only [counts.mem_lengths] using greatest

theorem Counts.count_pos {h : Histogram} (counts : Counts h.entries items) :
    ∀ n ∈ h.counts, 0 < n := by
  intro n member
  obtain ⟨e, among, rfl⟩ := List.mem_map.mp member
  exact counts.positive e among

theorem Counts.allFit {h : Histogram} (counts : Counts h.entries items)
    (bounded : ∀ x ∈ items, 0 < x ∧ x < 0x8000000000000000)
    (few : items.length < 0x8000000000000000) :
    h.lengths.all fits && h.counts.all fits := by
  have word {n : Int} (positive : 0 < n) (below : n < 0x8000000000000000) : fits n := by
    simp only [fits, decide_eq_true_eq]
    omega
  rw [Bool.and_eq_true, List.all_eq_true, List.all_eq_true]
  constructor
  · intro x member
    obtain ⟨positive, below⟩ := bounded x ((counts.mem_lengths x).mp member)
    exact word positive below
  · intro n member
    have most : n ≤ h.total :=
      List.single_le_sum (fun n member => (counts.count_pos n member).le) n member
    rw [counts.total] at most
    exact word (counts.count_pos n member) (by omega)

theorem Counts.checkSize {h : Histogram} (counts : Counts h.entries items)
    (few : items.length < 0x8000000000000000) (memory : Nat → Bool) :
    Stats.checkSize memory h =
      if 0x1000000000000000 ≤ items.length then .error .tooManyChains
      else if memory items.length then .ok ()
      else .error (.outOfMemory items.length) := by
  have size : h.total.bmod 0x10000000000000000 = items.length := by
    rw [counts.total]
    exact Int.bmod_eq_of_le (by omega) (by omega)
  have sound : ¬ (h.entries.length ≠ 1 ∧ h.counts.any (· < 0)) := by
    rintro ⟨_, negative⟩
    obtain ⟨n, member, below⟩ := List.any_eq_true.mp negative
    exact absurd (counts.count_pos n member) (by simpa using (of_decide_eq_true below).le)
  unfold Stats.checkSize
  dsimp only
  rw [size, if_neg sound, if_neg (by omega)]
  norm_cast

end Formulas

section Described

variable {items : List Int}

theorem Counts.of_perm {entries : List (Int × Int)}
    (same : entries.Perm (Histogram.ofLengths items).entries) : Counts entries items where
  positive e member := Histogram.ofLengths_positive items e (same.mem_iff.mp member)
  counted length :=
    (Histogram.count_perm same length).trans (Histogram.ofLengths_count items length)

theorem sorted_entries {entries : List (Int × Int)}
    (same : entries.Perm (Histogram.ofLengths items).entries) :
    (entries.mergeSort (·.1 ≤ ·.1)).filter (0 < ·.2) = (Histogram.ofLengths items).entries := by
  rw [Histogram.mergeSort_ascending (Histogram.ofLengths_ascending items) same,
    List.filter_eq_self]
  intro e member
  exact decide_eq_true (Histogram.ofLengths_positive items e member)

/-- The figures are those of a list of items. -/
structure Describes (s : Stats Rat) (items : List Int) : Prop where
  chains : s.chains = items.length
  mean : s.mean = (items.sum : Rat) / items.length
  median : OnLine items (((items.length : Rat) - 1) / 2) s.median
  p95 : OnLine items (19 * ((items.length : Rat) - 1) / 20) s.p95
  longest : items.max? = some s.longest
  chained : s.chained = (items.countP (2 ≤ ·) : Rat) / items.length

structure Ordered (s : Stats Rat) (least : Int) : Prop where
  least_mean : least ≤ s.mean
  mean_longest : s.mean ≤ s.longest
  least_median : least ≤ s.median
  median_p95 : s.median ≤ s.p95
  p95_longest : s.p95 ≤ s.longest

theorem Describes.ordered {s : Stats Rat} {least : Int} (describes : s.Describes items)
    (first : items.min? = some least) : s.Ordered least := by
  have filled : items ≠ [] := by
    rintro rfl
    cases first
  have nonempty := List.length_pos_iff.mpr filled
  have length : (1 : Rat) ≤ items.length := by exact_mod_cast nonempty
  have last : ((items.length : Rat) - 1) = (items.length - 1 : Nat) := by
    rw [Nat.cast_sub nonempty, Nat.cast_one]
  have lowest : fromBelow items 0 = least := by
    obtain rfl : ranked items 0 = least := Option.some.inj ((min?_ranked filled).symm.trans first)
    exact_mod_cast fromBelow_natCast items 0
  have highest : fromBelow items ((items.length : Rat) - 1) = s.longest := by
    have top := Option.some.inj ((max?_ranked filled).symm.trans describes.longest)
    rw [last, fromBelow_natCast, top]
  obtain ⟨_, lower⟩ := List.min?_eq_some_iff.mp first
  obtain ⟨_, upper⟩ := List.max?_eq_some_iff.mp describes.longest
  constructor
  · have sum : (items.length : Rat) * least ≤ items.sum := by
      exact_mod_cast nsmul_eq_mul items.length least ▸ List.card_nsmul_le_sum items least lower
    rw [describes.mean, le_div_iff₀ (by linarith)]
    linarith
  · have sum : (items.sum : Rat) ≤ items.length * s.longest := by
      exact_mod_cast nsmul_eq_mul items.length s.longest ▸ List.sum_le_card_nsmul items _ upper
    rw [describes.mean, div_le_iff₀ (by linarith)]
    linarith
  · rw [describes.median.1, ← lowest]
    exact fromBelow_mono le_rfl (by linarith)
  · rw [describes.median.1, describes.p95.1]
    exact fromBelow_mono (by linarith) (by linarith)
  · rw [describes.p95.1, ← highest]
    exact fromBelow_mono (by linarith) (by linarith)

/-- The figures of counted items are those of the items themselves, in whatever order the entries
    come. Only the list that repeats the items can be too long to be made. -/
theorem ofHistogram_figures (memory : Nat → Bool) {h : Histogram} (filled : items ≠ [])
    (bounded : ∀ x ∈ items, 0 < x ∧ x < 0x8000000000000000)
    (few : items.length < 0x8000000000000000)
    (same : h.entries.Perm (Histogram.ofLengths items).entries) :
    ∃ s least, s.Describes items ∧ items.min? = some least ∧ s.Ordered least ∧
      ofHistogram Rat memory h =
        if 0x1000000000000000 ≤ items.length then .error .tooManyChains
        else if memory items.length then .ok s
        else .error (.outOfMemory items.length) := by
  have counts := Counts.of_perm same
  have inOrder := Counts.of_perm (.refl (Histogram.ofLengths items).entries)
  have ascending := Histogram.ofLengths_ascending items
  let s : Stats Rat :=
    { chains := items.length
      mean := meanOf h
      median := medianOf (Histogram.ofLengths items).entries items.length
      p95 := p95Of (Histogram.ofLengths items).entries items.length
      longest := h.lengths.foldl max (h.lengths.headD 0)
      chained := chainedOf h items.length }
  have describes : s.Describes items :=
    { chains := rfl
      mean := counts.meanOf
      median := .of_below (inOrder.medianOf ascending filled)
      p95 := .of_below (inOrder.p95Of ascending filled bounded)
      longest := counts.longest filled
      chained := counts.chainedOf }
  have least := min?_ranked filled
  refine ⟨s, _, describes, least, describes.ordered least, ?_⟩
  have uncancelled : h.total ≠ 0 := by
    rw [counts.total]
    exact_mod_cast (List.length_pos_iff.mpr filled).ne'
  unfold ofHistogram
  dsimp only
  rw [if_neg uncancelled, counts.allFit bounded few, if_neg (by decide),
    counts.checkSize few memory, counts.total, sorted_entries same]
  split
  · rfl
  · split <;> rfl

theorem ofHistogram_figures_mixed :
    [(3, 1), (1, 2), (2, 1)].Perm (Histogram.ofLengths [2, 1, 3, 1]).entries ∧
    ∃ s : Stats Rat, ofHistogram Rat (· < 5) ⟨[(3, 1), (1, 2), (2, 1)]⟩ = .ok s ∧ s.chains = 4 ∧
      s.mean = 7 / 4 ∧ s.Ordered 1 := by
  have same : [(3, 1), (1, 2), (2, 1)].Perm (Histogram.ofLengths [2, 1, 3, 1]).entries := by
    have counted : (Histogram.ofLengths [2, 1, 3, 1]).entries = [(1, 2), (2, 1), (3, 1)] := by cbv
    rw [counted]
    decide
  obtain ⟨s, least, describes, first, ordered, result⟩ := ofHistogram_figures (· < 5)
    (h := ⟨[(3, 1), (1, 2), (2, 1)]⟩) (by decide) (by decide) (by decide) same
  obtain rfl : 1 = least := Option.some.inj first
  refine ⟨same, s, result, describes.chains, describes.mean.trans ?_, ordered⟩
  norm_num

end Described

theorem ofLengths_replicate {n : Nat} (filled : n ≠ 0) (x : Int) :
    Histogram.ofLengths (List.replicate n x) = ⟨[(x, n)]⟩ := by
  have single : (⟨[(x, n)]⟩ : Histogram).Normal :=
    ⟨List.pairwise_singleton _ _, by simpa using filled⟩
  refine (Histogram.Normal.ofLengths _).ext single fun length => ?_
  rw [Histogram.ofLengths_count, List.count_replicate, Histogram.count_cons]
  by_cases same : x = length
  · simp [same, Histogram.count, sumOf]
  · simp [same, Histogram.count, sumOf]

/-- Items that are too many for a count of one word, items that are too many for any list, and items
    that a memory of 64 GiB has no room for. -/
theorem ofHistogram_crowded :
    let memory : Nat → Bool := (· ≤ 0x200000000)
    let figures (count : Nat) := ofHistogram Rat memory (.ofLengths (List.replicate count 5))
    (∀ count, ∀ x ∈ List.replicate count (5 : Int), 0 < x ∧ x < 0x8000000000000000) ∧
    figures 0x8000000000000000 = .error .tooLarge ∧
    figures 0x1000000000000000 = .error .tooManyChains ∧
    figures 137438953472000 = .error (.outOfMemory 137438953472000) := by
  refine ⟨fun count x member => ?_, ?_, ?_, ?_⟩
  · rw [List.eq_of_mem_replicate member]
    decide
  all_goals
    dsimp only
    rw [ofLengths_replicate (by decide)]
    rfl

end Stats

end FluentCensus
