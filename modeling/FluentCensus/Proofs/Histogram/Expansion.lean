import FluentCensus.Histogram.Stats
import FluentCensus.Proofs.Histogram.Merge
import Mathlib

namespace FluentCensus

namespace Histogram

def expanded (entries : List (Int × Int)) : List Int :=
  entries.flatMap fun e => List.replicate e.2.toNat e.1

theorem mergeSort_ascending {entries arranged : List (Int × Int)} (ascending : Ascending arranged)
    (same : entries.Perm arranged) : entries.mergeSort (·.1 ≤ ·.1) = arranged := by
  have reordered := (List.mergeSort_perm entries (·.1 ≤ ·.1)).trans same
  have sorted : (entries.mergeSort (·.1 ≤ ·.1)).Pairwise fun e next => e.1 ≤ next.1 := by
    refine (List.pairwise_mergeSort ?_ ?_ entries).imp of_decide_eq_true
    · intro a b c first second
      simp only [decide_eq_true_eq] at *
      omega
    · intro a b
      simp only [Bool.or_eq_true, decide_eq_true_eq]
      omega
  refine reordered.eq_of_pairwise (fun a b first second below above => ?_) sorted
    (ascending.imp le_of_lt)
  have key : a.1 = b.1 := le_antisymm below above
  have here := count_of_mem ascending (reordered.mem_iff.mp first)
  have there := count_of_mem ascending second
  rw [key, there] at here
  exact Prod.ext key here.symm

section Expanded

variable {entries : List (Int × Int)}

theorem expanded_cons (e : Int × Int) (rest : List (Int × Int)) :
    expanded (e :: rest) = List.replicate e.2.toNat e.1 ++ expanded rest := rfl

theorem expanded_count (positive : ∀ e ∈ entries, 0 < e.2) (length : Int) :
    (expanded entries).count length = count ⟨entries⟩ length := by
  induction entries with
  | nil => rfl
  | cons e rest ih =>
    obtain ⟨first, later⟩ := List.forall_mem_cons.mp positive
    rw [expanded_cons, List.count_append, List.count_replicate, count_cons, Int.natCast_add,
      ih later]
    by_cases same : e.1 = length
    · simp [same, first.le]
    · simp [same]

theorem expanded_ascending (ascending : Ascending entries) :
    (expanded entries).Pairwise (· ≤ ·) := by
  refine List.pairwise_flatMap.mpr ⟨fun e _ => ?_, ascending.imp fun below x first y second => ?_⟩
  · exact List.pairwise_replicate.mpr (.inr le_rfl)
  · rw [List.eq_of_mem_replicate first, List.eq_of_mem_replicate second]
    exact below.le

theorem countP_expanded (positive : ∀ e ∈ entries, 0 < e.2) (p : Int → Bool) :
    (expanded entries).countP p = sumOf ((entries.filter (p ·.1)).map Prod.snd) := by
  induction entries with
  | nil => rfl
  | cons e rest ih =>
    obtain ⟨first, later⟩ := List.forall_mem_cons.mp positive
    rw [expanded_cons, List.countP_append, List.countP_replicate, Int.natCast_add, ih later]
    by_cases counted : p e.1
    · simp [counted, first.le, sumOf]
    · simp [counted]

theorem sum_expanded (positive : ∀ e ∈ entries, 0 < e.2) :
    ((expanded entries).map (Int.cast : Int → Rat)).sum =
      (entries.map fun e => (e.1 : Rat) * (e.2 : Rat)).sum := by
  induction entries with
  | nil => rfl
  | cons e rest ih =>
    obtain ⟨first, later⟩ := List.forall_mem_cons.mp positive
    have whole : ((e.2.toNat : Int) : Rat) = (e.2 : Rat) := by rw [Int.toNat_of_nonneg first.le]
    rw [expanded_cons, List.map_append, List.sum_append, ih later, List.map_replicate,
      List.sum_replicate, List.map_cons, List.sum_cons, nsmul_eq_mul, ← whole, mul_comm]
    rfl

theorem expanded_ne_nil {e : Int × Int} (positive : 0 < e.2) (rest : List (Int × Int)) :
    expanded (e :: rest) ≠ [] := by
  rw [expanded_cons]
  exact List.append_ne_nil_of_left_ne_nil (by simp [positive]) _

/-- The item at a rank is found without the list in which it has that rank. -/
theorem atRank_expanded (positive : ∀ e ∈ entries, 0 < e.2) (rank : Nat) :
    Stats.atRank entries rank =
      (expanded entries).getD (min rank ((expanded entries).length - 1)) 0 := by
  induction entries generalizing rank with
  | nil => rfl
  | cons e rest ih =>
    obtain ⟨first, later⟩ := List.forall_mem_cons.mp positive
    obtain ⟨times, filled⟩ := Int.eq_ofNat_of_zero_le first.le
    have whole : e.2.toNat = times := by omega
    cases rest with
    | nil =>
      rw [Stats.atRank, expanded_cons, whole, expanded, List.flatMap_nil, List.append_nil,
        List.length_replicate, List.getD_replicate _ (by omega)]
    | cons next more =>
      have others := List.length_pos_iff.mpr
        (expanded_ne_nil (List.forall_mem_cons.mp later).1 more)
      have step : Stats.atRank (e :: next :: more) rank =
        if (rank : Int) < e.2 then e.1 else Stats.atRank (next :: more) (rank - e.2) := rfl
      rw [step, expanded_cons, whole, List.length_append, List.length_replicate]
      by_cases within : (rank : Int) < e.2
      · rw [if_pos within, List.getD_append _ _ _ _ (by rw [List.length_replicate]; omega),
          List.getD_replicate _ (by omega)]
      · have behind : (rank : Int) - e.2 = (rank - times : Nat) := by omega
        rw [if_neg within, behind, ih later,
          List.getD_append_right _ _ _ _ (by rw [List.length_replicate]; omega),
          List.length_replicate]
        congr 1
        omega

end Expanded

end Histogram

end FluentCensus
