import FluentCensus.Proofs.Csv.Reader
import Mathlib

namespace FluentCensus

theorem intText_repr (n : Int) : String.ofList (intText n) = n.repr := by
  cases n with
  | ofNat m =>
    have sign : ¬ (Int.ofNat m < 0) := by simp
    simp [intText, Decimal.digitText, Int.repr, Nat.repr_eq_ofList_toDigits]
  | negSucc m =>
    simp [intText, Decimal.digitText, Int.repr, Nat.repr_eq_ofList_toDigits, Int.negSucc_lt_zero]

theorem intText_toInt? (n : Int) : (String.ofList (intText n)).toInt? = some n := by
  rw [intText_repr, Int.toInt?_repr]

theorem mem_intText {n : Int} {c : Char} (member : c ∈ intText n) : c = '-' ∨ c.isDigit = true := by
  rw [intText, List.mem_append] at member
  rcases member with sign | digit
  · left
    split at sign
    · exact List.mem_singleton.mp sign
    · cases sign
  · exact .inr (Nat.isDigit_of_mem_toDigits (by decide) (by decide) digit)

namespace Csv

def document (surveys : List Survey) : List Char :=
  endLine header ++ (surveys.flatMap rows).flatMap endLine

theorem document_append (surveys : List Survey) (s : Survey) :
    document (surveys ++ [s]) = document surveys ++ (rows s).flatMap endLine := by
  simp [document]

def titles : List (List Char) :=
  ["project".toList, "chain length".toList, "frequency".toList]

def longestFirst (s : Survey) : List (Int × Int) :=
  s.histogram.entries.mergeSort fun a b => b.1 ≤ a.1

def records (s : Survey) : List (List (List Char)) :=
  (longestFirst s).map fun e => [s.name.toList, intText e.1, intText e.2]

def rowOf? : List (List Char) → Option (List Char × Int × Int)
  | [name, length, frequency] => do
    return (name, ← (String.ofList length).toInt?, ← (String.ofList frequency).toInt?)
  | _ => none

theorem intText_plain (n : Int) : (intText n).any isSpecial = false := by
  rw [List.any_eq_false]
  intro c member special
  have named : c = ',' ∨ c = '"' ∨ c = '\r' ∨ c = '\n' := by simpa [isSpecial] using special
  rcases mem_intText member with rfl | digit
  · exact absurd special (by decide)
  · rcases named with rfl | rfl | rfl | rfl <;> exact absurd digit (by decide)

theorem field_intText (n : Int) : field (intText n) = intText n := by
  have filled : intText n ≠ [] := by simp [intText, Decimal.digitText]
  rw [field, if_neg]
  simp [filled, intText_plain]

theorem row_line (s : Survey) (e : Int × Int) :
    endLine (row s.name.toList e.1 e.2) = line [s.name.toList, intText e.1, intText e.2] := by
  simp only [row, line, List.map_cons, List.map_nil, field_intText]

theorem document_lines (surveys : List Survey) :
    document surveys = (titles :: surveys.flatMap records).flatMap line := by
  have rows_lines (s : Survey) : (rows s).flatMap endLine = (records s).flatMap line := by
    simp only [rows, records, longestFirst, List.flatMap_map, row_line]
  have first : endLine header = line titles := rfl
  rw [document, List.flatMap_cons, first, List.flatMap_assoc, List.flatMap_assoc]
  simp only [rows_lines]

theorem longestFirst_descending (s : Survey) (distinct : s.histogram.lengths.Nodup) :
    (longestFirst s).Pairwise fun e next => next.1 < e.1 := by
  have ordered : (longestFirst s).Pairwise fun e next => next.1 ≤ e.1 := by
    refine (List.pairwise_mergeSort ?_ ?_ s.histogram.entries).imp of_decide_eq_true
    · intro a b c
      simp only [decide_eq_true_eq]
      omega
    · intro a b
      simp only [Bool.or_eq_true, decide_eq_true_eq]
      omega
  have different : (longestFirst s).Pairwise fun e next => e.1 ≠ next.1 := by
    have same := (List.mergeSort_perm s.histogram.entries fun a b => b.1 ≤ a.1).map Prod.fst
    exact List.pairwise_map.mp (same.nodup_iff.mpr distinct)
  exact (ordered.and different).imp fun h => lt_of_le_of_ne h.1 h.2.symm

theorem read?_surveys (surveys : List Survey) :
    read? (document surveys) = some (titles :: surveys.flatMap records) := by
  rw [document_lines]
  apply read?_lines
  intro record member
  rcases List.mem_cons.mp member with rfl | member
  · exact List.cons_ne_nil _ _
  · obtain ⟨s, _, member⟩ := List.mem_flatMap.mp member
    obtain ⟨e, _, rfl⟩ := List.mem_map.mp member
    exact List.cons_ne_nil _ _

theorem rowOf?_record (s : Survey) (e : Int × Int) :
    rowOf? [s.name.toList, intText e.1, intText e.2] = some (s.name.toList, e.1, e.2) := by
  simp [rowOf?, intText_toInt?]

/-- Whatever the names hold, the file reads as its header and one record for every entry of every
    survey in turn, the longest first. -/
theorem read?_document (surveys : List Survey)
    (distinct : ∀ s ∈ surveys, s.histogram.lengths.Nodup) :
    read? (document surveys) = some (titles :: surveys.flatMap records) ∧
    ∀ s ∈ surveys,
      (records s).map rowOf? = (longestFirst s).map (fun e => some (s.name.toList, e.1, e.2)) ∧
      (longestFirst s).Perm s.histogram.entries ∧
      (longestFirst s).Pairwise fun e next => next.1 < e.1 := by
  refine ⟨read?_surveys surveys, fun s member => ?_⟩
  refine ⟨?_, List.mergeSort_perm _ _, longestFirst_descending s (distinct s member)⟩
  rw [records, List.map_map]
  exact List.map_congr_left fun e _ => rowOf?_record s e

/-- Names that look like separators, quotes and rows, and one that is empty. -/
theorem read?_document_names :
    (∀ s ∈ [Survey.mk "a, 3, 1\n\"b\"" {} 1 ⟨[(1, 12), (3, 1)]⟩, Survey.mk "" {} 1 ⟨[(2, 5)]⟩],
      s.histogram.lengths.Nodup) ∧
    read? (document
        [Survey.mk "a, 3, 1\n\"b\"" {} 1 ⟨[(1, 12), (3, 1)]⟩, Survey.mk "" {} 1 ⟨[(2, 5)]⟩]) =
      some [titles, ["a, 3, 1\n\"b\"".toList, ['3'], ['1']],
        ["a, 3, 1\n\"b\"".toList, ['1'], ['1', '2']], [[], ['2'], ['5']]] := by
  have distinct : ∀ s ∈
      [Survey.mk "a, 3, 1\n\"b\"" {} 1 ⟨[(1, 12), (3, 1)]⟩, Survey.mk "" {} 1 ⟨[(2, 5)]⟩],
      s.histogram.lengths.Nodup := by
    decide
  refine ⟨distinct, ?_⟩
  rw [(read?_document _ distinct).1]
  cbv

end Csv

end FluentCensus
