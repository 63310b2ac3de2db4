import FluentCensus.Proofs.Histogram.Merge
import Mathlib

namespace FluentCensus

/-- Histograms that are merged in groups, and the groups in groups, before all is merged. -/
inductive Grouping where
  | single (h : Histogram)
  | group (members : List Grouping)

namespace Grouping

mutual

def merged : Grouping → Histogram
  | .single h => h
  | .group members => Histogram.merge (allMerged members)

def allMerged : List Grouping → List Histogram
  | [] => []
  | first :: rest => first.merged :: allMerged rest

end

mutual

def leaves : Grouping → List Histogram
  | .single h => [h]
  | .group members => allLeaves members

def allLeaves : List Grouping → List Histogram
  | [] => []
  | first :: rest => first.leaves ++ allLeaves rest

end

mutual

theorem merged_count (g : Grouping) (length : Int) :
    g.merged.count length = sumOf (g.leaves.map (·.count length)) := by
  cases g with
  | single h =>
    rw [merged, leaves]
    exact (Int.add_zero _).symm
  | group members =>
    rw [merged, leaves, Histogram.merge_count]
    exact allMerged_count members length

theorem allMerged_count (groupings : List Grouping) (length : Int) :
    sumOf ((allMerged groupings).map (·.count length)) =
      sumOf ((allLeaves groupings).map (·.count length)) := by
  cases groupings with
  | nil => rfl
  | cons first rest =>
    have here := merged_count first length
    have later := allMerged_count rest length
    rw [allMerged, allLeaves, List.map_append, sumOf_append, ← here, ← later]
    rfl

end

theorem merge_allMerged (groupings : List Grouping) :
    Histogram.merge (allMerged groupings) = Histogram.merge (allLeaves groupings) := by
  refine (Histogram.Normal.merge _).ext (.merge _) fun length => ?_
  rw [Histogram.merge_count, Histogram.merge_count, allMerged_count]

end Grouping

namespace Histogram

theorem merge_perm {histograms others : List Histogram} (same : histograms.Perm others) :
    merge histograms = merge others := by
  refine (Normal.merge _).ext (.merge _) fun length => ?_
  rw [merge_count, merge_count]
  exact sumOf_perm (same.map _)

theorem merge_empty (histograms : List Histogram) : merge ({} :: histograms) = merge histograms :=
  rfl

theorem merge_single_iff (h : Histogram) : merge [h] = h ↔ h.Normal := by
  constructor
  · intro same
    exact same ▸ Normal.merge [h]
  · intro normal
    refine (Normal.merge _).ext normal fun length => ?_
    rw [merge_count]
    exact Int.add_zero _

theorem ofLengths_eq_iff (lengths others : List Int) :
    ofLengths lengths = ofLengths others ↔ lengths.Perm others := by
  constructor
  · intro same
    rw [List.perm_iff_count]
    intro length
    have counts := congrArg (·.count length) same
    rw [ofLengths_count, ofLengths_count] at counts
    exact_mod_cast counts
  · exact ofLengths_perm

/-- Histograms under merging: what comes of it is determined by the sums of the counts, so neither
    order nor grouping matters, and to count in parts is to count all at once. -/
theorem merge_algebra :
    (∀ histograms, (merge histograms).Normal ∧
      ∀ length, (merge histograms).count length = sumOf (histograms.map (·.count length))) ∧
    (∀ histograms others, histograms.Perm others → merge histograms = merge others) ∧
    (∀ groupings, merge (Grouping.allMerged groupings) = merge (Grouping.allLeaves groupings)) ∧
    (∀ histograms, merge ({} :: histograms) = merge histograms) ∧
    (∀ h, merge [h] = h ↔ h.Normal) ∧
    (∀ parts : List (List Int), merge (parts.map ofLengths) = ofLengths parts.flatten) ∧
    ∀ lengths others, ofLengths lengths = ofLengths others ↔ lengths.Perm others :=
  ⟨fun histograms => ⟨Normal.merge histograms, merge_count histograms⟩, fun _ _ => merge_perm,
    Grouping.merge_allMerged, merge_empty, merge_single_iff, merge_ofLengths, ofLengths_eq_iff⟩

def cancelling : List Histogram := [⟨[(2, 3), (1, 1)]⟩, ⟨[(2, -3)]⟩]

def uncancelled : Histogram := ⟨[(2, 5), (-4, 0)]⟩

theorem merge_algebra_cancelling :
    (cancelling ++ [uncancelled]).Perm (uncancelled :: cancelling) ∧
    merge cancelling = ⟨[(1, 1)]⟩ ∧
    merge [merge cancelling, uncancelled] = merge (uncancelled :: cancelling) := by
  obtain ⟨_, reordered, regrouped, _⟩ := merge_algebra
  have same : (cancelling ++ [uncancelled]).Perm (uncancelled :: cancelling) := by decide
  have grouped := regrouped [.group (cancelling.map .single), .single uncancelled]
  exact ⟨same, by cbv, grouped.trans (reordered _ _ same)⟩

end Histogram

end FluentCensus
