import FluentCensus.Histogram.Stats
import Mathlib

namespace FluentCensus.Stats

theorem lanes_sum (sums xs : List Rat) (eight : sums.length = 8) :
    (lanes sums xs).1.length = 8 ∧
      (lanes sums xs).1.sum + (lanes sums xs).2.sum = sums.sum + xs.sum := by
  fun_induction lanes sums xs with
  | case1 sums a b c d e f g h rest ih =>
    match sums, eight with
    | [s, t, u, v, w, x, y, z], _ =>
      obtain ⟨length, sum⟩ := ih rfl
      refine ⟨length, sum.trans ?_⟩
      simp only [List.zipWith_cons_cons, List.zipWith_nil_left, List.sum_cons, List.sum_nil]
      ring
  | case2 sums rest few => exact ⟨eight, rfl⟩

theorem foldl_sum (start : Rat) (xs : List Rat) : xs.foldl (· + ·) start = start + xs.sum := by
  induction xs generalizing start with
  | nil => simp
  | cons x rest ih => rw [List.foldl_cons, ih, List.sum_cons, add_assoc]

theorem blockSum_sum (xs : List Rat) : blockSum xs = xs.sum := by
  unfold blockSum
  split
  case h_1 a b c d e f g h rest =>
    have kept := lanes_sum [a, b, c, d, e, f, g, h] rest rfl
    match lanes [a, b, c, d, e, f, g, h] rest, kept with
    | ([s, t, u, v, w, x, y, z], left), ⟨_, sum⟩ =>
      dsimp only
      rw [foldl_sum]
      simp only [List.sum_cons, List.sum_nil] at sum ⊢
      linarith
  case h_2 =>
    rw [foldl_sum]
    exact zero_add _

/-- Exact numbers have the same sum in whatever order they are added. -/
theorem pairwiseSum_sum (xs : List Rat) : pairwiseSum xs = xs.sum := by
  fun_induction pairwiseSum xs with
  | case1 xs few => exact blockSum_sum xs
  | case2 xs many half first second =>
    rw [first, second, ← List.sum_append, List.take_append_drop]

end FluentCensus.Stats
