import Mathlib

namespace FluentCensus.Stats

/-- The item at a rank of the sorted list. A rank past the end counts as the last one. -/
def ranked (items : List Int) (rank : Nat) : Int :=
  (items.mergeSort (· ≤ ·)).getD (min rank (items.length - 1)) 0

/-- The value at a position among the ranks, on the straight line that starts at the item below. -/
def fromBelow (items : List Int) (position : Rat) : Rat :=
  let low := ⌊position⌋₊
  ranked items low + (ranked items (low + 1) - ranked items low) * (position - low)

def fromAbove (items : List Int) (position : Rat) : Rat :=
  let low := ⌊position⌋₊
  ranked items (low + 1) - (ranked items (low + 1) - ranked items low) * (1 - (position - low))

def OnLine (items : List Int) (position value : Rat) : Prop :=
  value = fromBelow items position ∧ value = fromAbove items position

theorem OnLine.of_below {items : List Int} {position value : Rat}
    (below : value = fromBelow items position) : OnLine items position value := by
  refine ⟨below, below.trans ?_⟩
  unfold fromBelow fromAbove
  ring

section Ranked

variable {items : List Int}

theorem ranked_mem (filled : items ≠ []) (rank : Nat) : ranked items rank ∈ items := by
  have length : (items.mergeSort (· ≤ ·)).length = items.length := List.length_mergeSort items
  have nonempty := List.length_pos_iff.mpr filled
  have within : min rank (items.length - 1) < (items.mergeSort (· ≤ ·)).length := by omega
  rw [ranked, List.getD_eq_getElem _ _ within]
  exact List.mem_mergeSort.mp (List.getElem_mem within)

theorem ranked_mono {rank other : Nat} (before : rank ≤ other) :
    ranked items rank ≤ ranked items other := by
  by_cases filled : items = []
  · subst filled
    simp [ranked]
  · have length : (items.mergeSort (· ≤ ·)).length = items.length := List.length_mergeSort items
    have nonempty := List.length_pos_iff.mpr filled
    have first : min rank (items.length - 1) < (items.mergeSort (· ≤ ·)).length := by omega
    have second : min other (items.length - 1) < (items.mergeSort (· ≤ ·)).length := by omega
    rw [ranked, ranked, List.getD_eq_getElem _ _ first, List.getD_eq_getElem _ _ second]
    exact List.sortedLE_mergeSort.getElem_le_getElem_of_le (by omega)

theorem exists_rank {item : Int} (member : item ∈ items) :
    ∃ rank < items.length, ranked items rank = item := by
  have length : (items.mergeSort (· ≤ ·)).length = items.length := List.length_mergeSort items
  have sorted : item ∈ items.mergeSort (· ≤ ·) := List.mem_mergeSort.mpr member
  obtain ⟨rank, within, rfl⟩ := List.mem_iff_getElem.mp sorted
  refine ⟨rank, by omega, ?_⟩
  have clamped : min rank (items.length - 1) = rank := by omega
  rw [ranked, clamped, List.getD_eq_getElem _ _ within]

theorem min?_ranked (filled : items ≠ []) : items.min? = some (ranked items 0) := by
  rw [List.min?_eq_some_iff]
  refine ⟨ranked_mem filled 0, fun item member => ?_⟩
  obtain ⟨rank, _, rfl⟩ := exists_rank member
  exact ranked_mono (Nat.zero_le rank)

theorem max?_ranked (filled : items ≠ []) :
    items.max? = some (ranked items (items.length - 1)) := by
  rw [List.max?_eq_some_iff]
  refine ⟨ranked_mem filled _, fun item member => ?_⟩
  obtain ⟨rank, within, rfl⟩ := exists_rank member
  exact ranked_mono (by omega)

end Ranked

section Line

variable {items : List Int} {position other : Rat}

theorem ranked_le_fromBelow (start : 0 ≤ position) :
    (ranked items ⌊position⌋₊ : Rat) ≤ fromBelow items position := by
  have rise : (ranked items ⌊position⌋₊ : Rat) ≤ ranked items (⌊position⌋₊ + 1) := by
    exact_mod_cast ranked_mono (Nat.le_succ _)
  have part : 0 ≤ position - ⌊position⌋₊ := sub_nonneg.mpr (Nat.floor_le start)
  unfold fromBelow
  nlinarith

theorem fromBelow_le_ranked :
    fromBelow items position ≤ (ranked items (⌊position⌋₊ + 1) : Rat) := by
  have rise : (ranked items ⌊position⌋₊ : Rat) ≤ ranked items (⌊position⌋₊ + 1) := by
    exact_mod_cast ranked_mono (Nat.le_succ _)
  have part : position - ⌊position⌋₊ ≤ 1 := by linarith [Nat.lt_floor_add_one position]
  unfold fromBelow
  nlinarith

theorem fromBelow_mono (start : 0 ≤ position) (rises : position ≤ other) :
    fromBelow items position ≤ fromBelow items other := by
  rcases (Nat.floor_mono rises).eq_or_lt with same | below
  · have rise : (ranked items ⌊position⌋₊ : Rat) ≤ ranked items (⌊position⌋₊ + 1) := by
      exact_mod_cast ranked_mono (Nat.le_succ _)
    unfold fromBelow
    rw [← same]
    nlinarith
  · calc fromBelow items position
      _ ≤ ranked items (⌊position⌋₊ + 1) := fromBelow_le_ranked
      _ ≤ ranked items ⌊other⌋₊ := by exact_mod_cast ranked_mono below
      _ ≤ fromBelow items other := ranked_le_fromBelow (start.trans rises)

theorem fromBelow_natCast (items : List Int) (rank : Nat) :
    fromBelow items rank = ranked items rank := by
  unfold fromBelow
  rw [Nat.floor_natCast]
  ring

theorem fromBelow_half (items : List Int) (low : Nat) :
    fromBelow items (low + 1 / 2) = ((ranked items low : Rat) + ranked items (low + 1)) / 2 := by
  have floor : ⌊(low : Rat) + 1 / 2⌋₊ = low := by
    rw [Nat.floor_eq_iff (by positivity)]
    constructor <;> linarith
  unfold fromBelow
  rw [floor]
  ring

end Line

end FluentCensus.Stats
