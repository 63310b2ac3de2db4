import FluentCensus.Histogram.Basic
import Mathlib.Data.List.Perm.Basic
import Mathlib.Data.List.Sort

namespace FluentCensus

theorem sumOf_append (first second : List Int) :
    sumOf (first ++ second) = sumOf first + sumOf second := by
  induction first with
  | nil => exact (Int.zero_add _).symm
  | cons n rest ih =>
    have whole : sumOf (n :: rest ++ second) = n + sumOf (rest ++ second) := rfl
    have part : sumOf (n :: rest) = n + sumOf rest := rfl
    rw [whole, ih, part, Int.add_assoc]

theorem sumOf_perm {first second : List Int} (same : first.Perm second) :
    sumOf first = sumOf second :=
  same.foldr_eq 0

namespace Histogram

def Ascending (entries : List (Int × Int)) : Prop :=
  entries.Pairwise fun e next => e.1 < next.1

theorem mem_insertEntry {length amount : Int} {entries : List (Int × Int)} {e : Int × Int}
    (member : e ∈ insertEntry length amount entries) :
    e.1 = length ∨ ∃ old ∈ entries, e.1 = old.1 := by
  fun_induction insertEntry length amount entries with
  | case1 => exact .inl (by rw [List.mem_singleton.mp member])
  | case2 l n rest below =>
    rcases List.mem_cons.mp member with rfl | member
    · exact .inl rfl
    · exact .inr ⟨e, member, rfl⟩
  | case3 n rest same =>
    rcases List.mem_cons.mp member with rfl | member
    · exact .inl rfl
    · exact .inr ⟨e, List.mem_cons_of_mem _ member, rfl⟩
  | case4 l n rest below other ih =>
    rcases List.mem_cons.mp member with rfl | member
    · exact .inr ⟨_, List.mem_cons_self, rfl⟩
    · refine (ih member).imp_right ?_
      rintro ⟨old, among, same⟩
      exact ⟨old, List.mem_cons_of_mem _ among, same⟩

theorem insertEntry_ascending {entries : List (Int × Int)} (ascending : Ascending entries)
    (length amount : Int) : Ascending (insertEntry length amount entries) := by
  fun_induction insertEntry length amount entries with
  | case1 => exact List.pairwise_singleton _ _
  | case2 l n rest below =>
    refine List.pairwise_cons.mpr ⟨fun e member => ?_, ascending⟩
    rcases List.mem_cons.mp member with rfl | member
    · exact below
    · exact below.trans ((List.pairwise_cons.mp ascending).1 e member)
  | case3 n rest same =>
    obtain ⟨first, later⟩ := List.pairwise_cons.mp ascending
    exact List.pairwise_cons.mpr ⟨first, later⟩
  | case4 l n rest below other ih =>
    obtain ⟨first, later⟩ := List.pairwise_cons.mp ascending
    refine List.pairwise_cons.mpr ⟨fun e member => ?_, ih later⟩
    rcases mem_insertEntry member with same | ⟨old, among, same⟩
    · rw [same]
      omega
    · rw [same]
      exact first old among

theorem insertEntry_total (length amount : Int) (entries : List (Int × Int)) :
    sumOf ((insertEntry length amount entries).map Prod.snd) =
      amount + sumOf (entries.map Prod.snd) := by
  fun_induction insertEntry length amount entries with
  | case1 => rfl
  | case2 l n rest below => rfl
  | case3 n rest same =>
    simp only [List.map_cons, sumOf, List.foldr_cons]
    omega
  | case4 l n rest below other ih =>
    simp only [List.map_cons, sumOf, List.foldr_cons] at ih ⊢
    omega

theorem bumps_ascending {h : Histogram} (ascending : Ascending h.entries)
    (entries : List (Int × Int)) :
    Ascending (entries.foldl (fun h e => h.bump e.1 e.2) h).entries := by
  induction entries generalizing h with
  | nil => exact ascending
  | cons e rest ih => exact ih (insertEntry_ascending ascending e.1 e.2)

theorem bumps_total (h : Histogram) (entries : List (Int × Int)) :
    (entries.foldl (fun h e => h.bump e.1 e.2) h).total =
      sumOf (entries.map Prod.snd) + h.total := by
  induction entries generalizing h with
  | nil => exact (Int.zero_add _).symm
  | cons e rest ih =>
    have bumped : (h.bump e.1 e.2).total = e.2 + h.total := insertEntry_total e.1 e.2 h.entries
    rw [List.foldl_cons, ih, bumped, List.map_cons, sumOf, sumOf, List.foldr_cons]
    omega

theorem ofEntries_ascending (entries : List (Int × Int)) : Ascending (ofEntries entries).entries :=
  bumps_ascending .nil _

theorem ofEntries_total (entries : List (Int × Int)) :
    (ofEntries entries).total = sumOf (entries.map Prod.snd) := by
  have same := (List.mergeSort_perm entries fun a b => b.1 ≤ a.1).map Prod.snd
  rw [ofEntries, bumps_total, sumOf_perm same]
  exact Int.add_zero _

theorem Ascending.nodup {h : Histogram} (ascending : Ascending h.entries) : h.lengths.Nodup :=
  (List.pairwise_map.mpr ascending).imp ne_of_lt

theorem ofLengths_ascending (lengths : List Int) : Ascending (ofLengths lengths).entries :=
  ofEntries_ascending _

theorem ofLengths_total (lengths : List Int) : (ofLengths lengths).total = lengths.length := by
  rw [ofLengths, ofEntries_total, List.map_map]
  induction lengths with
  | nil => rfl
  | cons length rest ih =>
    rw [sumOf] at ih ⊢
    rw [List.map_cons, List.foldr_cons, ih, List.length_cons, Function.comp_apply]
    omega

end Histogram

end FluentCensus
