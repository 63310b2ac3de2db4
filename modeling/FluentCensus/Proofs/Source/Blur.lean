import FluentCensus.Proofs.Comment.Leftmost
import FluentCensus.Proofs.Source.Lexing
import FluentCensus.Chain
import Mathlib.Logic.Relation

namespace FluentCensus

open Lexeme (isNameChar)

inductive Blur : List Char → List Char → Prop where
  | run (before after first second : List Char) (someFirst : first ≠ [])
      (someSecond : second ≠ []) (names : ∀ c ∈ first, isNameChar c)
      (others : ∀ c ∈ second, isNameChar c) :
      Blur (before ++ first ++ after) (before ++ second ++ after)

/-- The texts have the same characters in the same order, but for the lengths and the characters of
    their runs of name characters. -/
abbrev Blurred : List Char → List Char → Prop := Relation.EqvGen Blur

theorem Blurred.map {f : List Char → List Char} (blurs : ∀ {s t}, Blur s t → Blurred (f s) (f t))
    {s t : List Char} (blurred : Blurred s t) : Blurred (f s) (f t) := by
  induction blurred with
  | rel s t blur => exact blurs blur
  | refl s => exact .refl _
  | symm s t _ ih => exact ih.symm
  | trans s t u _ _ first second => exact first.trans _ _ _ second

theorem Blurred.append {s t : List Char} (blurred : Blurred s t) (rest : List Char) :
    Blurred (s ++ rest) (t ++ rest) := by
  refine blurred.map (f := (· ++ rest)) fun blur => ?_
  obtain ⟨before, after, first, second, someFirst, someSecond, names, others⟩ := blur
  have moved := Blur.run before (after ++ rest) first second someFirst someSecond names others
  simp only [← List.append_assoc] at moved
  exact .rel _ _ moved

theorem isNameChar_unlike {c d : Char} (name : isNameChar c) (other : isNameChar d = false) :
    c ≠ d := by
  rintro rfl
  rw [other] at name
  cases name

namespace Comment.Stripping

variable {c : Char} (name : isNameChar c) (kept : List Char)

include name

theorem step_code : step ⟨.code, kept⟩ c = ⟨.code, c :: kept⟩ :=
  if_neg (isNameChar_unlike name (by decide))

theorem step_line : step ⟨.line, kept⟩ c = ⟨.line, kept⟩ := by
  have feed : c ≠ '\n' := isNameChar_unlike name (by decide)
  have back : c ≠ '\r' := isNameChar_unlike name (by decide)
  simp [step, feed, back]

theorem step_block : step ⟨.block, kept⟩ c = ⟨.block, kept⟩ :=
  if_neg (isNameChar_unlike name (by decide))

theorem step_slash : step ⟨.slash, kept⟩ c = ⟨.code, c :: '/' :: kept⟩ := by
  have slash : c ≠ '/' := isNameChar_unlike name (by decide)
  have star : c ≠ '*' := isNameChar_unlike name (by decide)
  simp [step, slash, star]

theorem step_star : step ⟨.star, kept⟩ c = ⟨.block, kept⟩ := by
  have slash : c ≠ '/' := isNameChar_unlike name (by decide)
  have star : c ≠ '*' := isNameChar_unlike name (by decide)
  simp [step, slash, star]

omit name

theorem run_code (run : List Char) (names : ∀ c ∈ run, isNameChar c) (kept : List Char) :
    run.foldl step ⟨.code, kept⟩ = ⟨.code, run.reverse ++ kept⟩ := by
  induction run generalizing kept with
  | nil => rfl
  | cons c run ih =>
    rw [List.foldl_cons, step_code (names c List.mem_cons_self),
      ih fun d member => names d (List.mem_cons_of_mem c member)]
    simp

theorem run_still {place : Place} (still : ∀ {c}, isNameChar c → ∀ kept,
      step ⟨place, kept⟩ c = ⟨place, kept⟩) (run : List Char)
    (names : ∀ c ∈ run, isNameChar c) (kept : List Char) :
    run.foldl step ⟨place, kept⟩ = ⟨place, kept⟩ := by
  induction run with
  | nil => rfl
  | cons c run ih =>
    rw [List.foldl_cons, still (names c List.mem_cons_self),
      ih fun d member => names d (List.mem_cons_of_mem c member)]

theorem run_names (s : Stripping) : ∃ place kept,
    (∀ run, run ≠ [] → (∀ c ∈ run, isNameChar c) →
      run.foldl step s = ⟨place, run.reverse ++ kept⟩) ∨
    ∀ run, run ≠ [] → (∀ c ∈ run, isNameChar c) → run.foldl step s = ⟨place, kept⟩ := by
  -- Whether the run is kept is settled before it: only a slash or a star that waits for its second
  -- character is settled by the first of the run.
  obtain ⟨place, kept⟩ := s
  cases place with
  | code => exact ⟨.code, kept, .inl fun run _ names => run_code run names kept⟩
  | line => exact ⟨.line, kept, .inr fun run _ names => run_still step_line run names kept⟩
  | block => exact ⟨.block, kept, .inr fun run _ names => run_still step_block run names kept⟩
  | slash =>
    refine ⟨.code, '/' :: kept, .inl fun run filled names => ?_⟩
    obtain ⟨c, run, rfl⟩ := List.exists_cons_of_ne_nil filled
    rw [List.foldl_cons, step_slash (names c List.mem_cons_self),
      run_code run fun d member => names d (List.mem_cons_of_mem c member)]
    simp
  | star =>
    refine ⟨.block, kept, .inr fun run filled names => ?_⟩
    obtain ⟨c, run, rfl⟩ := List.exists_cons_of_ne_nil filled
    rw [List.foldl_cons, step_star (names c List.mem_cons_self)]
    exact run_still step_block run (fun d member => names d (List.mem_cons_of_mem c member)) kept

end Comment.Stripping

theorem Blur.strip {s t : List Char} (blur : Blur s t) :
    Blurred (Comment.strip s) (Comment.strip t) := by
  obtain ⟨before, after, first, second, someFirst, someSecond, names, others⟩ := blur
  obtain ⟨place, kept, whole | nothing⟩ :=
    Comment.Stripping.run_names (before.foldl Comment.Stripping.step {})
  · have stripped (run : List Char) (filled : run ≠ []) (names : ∀ c ∈ run, isNameChar c) :
        Comment.strip (before ++ run ++ after) =
          kept.reverse ++ run ++ Comment.uncomment (place.unread after) := by
      rw [Comment.strip, List.foldl_append, List.foldl_append, whole run filled names,
        Comment.unread_run]
      simp
    rw [stripped first someFirst names, stripped second someSecond others]
    exact .rel _ _ (.run _ _ first second someFirst someSecond names others)
  · have same : Comment.strip (before ++ first ++ after) =
        Comment.strip (before ++ second ++ after) := by
      rw [Comment.strip, Comment.strip, List.foldl_append, List.foldl_append, List.foldl_append,
        List.foldl_append, nothing first someFirst names, nothing second someSecond others]
    rw [same]
    exact .refl _

namespace Lexeme.Lexing

structure Twins (l m : Lexing) : Prop where
  done : l.done.map Lexeme.token = m.done.map Lexeme.token
  unnamed : l.run = [] ↔ m.run = []

theorem Twins.close {l m : Lexing} (twins : Twins l m) :
    l.close.map Lexeme.token = m.close.map Lexeme.token := by
  by_cases nothing : l.run = []
  · have also := twins.unnamed.mp nothing
    simp [Lexing.close, nothing, also, twins.done]
  · have also := mt twins.unnamed.mpr nothing
    simp [Lexing.close, nothing, also, twins.done]

theorem Twins.step {l m : Lexing} (twins : Twins l m) (c : Char) : Twins (l.step c) (m.step c) := by
  unfold Lexing.step
  split
  · exact ⟨twins.close, Iff.rfl⟩
  · cases single? c with
    | none => exact ⟨twins.done, by simp⟩
    | some token => exact ⟨congrArg (token :: ·) twins.close, Iff.rfl⟩

theorem Twins.run {l m : Lexing} (twins : Twins l m) (text : List Char) :
    Twins (text.foldl Lexing.step l) (text.foldl Lexing.step m) := by
  induction text generalizing l m with
  | nil => exact twins
  | cons c text ih => exact ih (twins.step c)

end Lexeme.Lexing

theorem Blur.tokens {s t : List Char} (blur : Blur s t) :
    FluentCensus.tokens s = FluentCensus.tokens t := by
  obtain ⟨before, after, first, second, someFirst, someSecond, names, others⟩ := blur
  have twins (l : Lexeme.Lexing) : Lexeme.Lexing.Twins (first.foldl Lexeme.Lexing.step l)
      (second.foldl Lexeme.Lexing.step l) := by
    rw [Lexeme.Lexing.run_names l first names, Lexeme.Lexing.run_names l second others]
    exact ⟨rfl, by simp [someFirst, someSecond]⟩
  simp only [FluentCensus.tokens, lexemes, List.map_reverse, List.foldl_append]
  rw [((twins _).run after).close]

theorem Blurred.tokens {s t : List Char} (blurred : Blurred s t) :
    FluentCensus.tokens s = FluentCensus.tokens t := by
  induction blurred with
  | rel s t blur => exact blur.tokens
  | refl s => rfl
  | symm s t _ ih => exact ih.symm
  | trans s t u _ _ first second => exact first.trans second

/-- Which characters a name has, and how many, makes no difference to the chains. -/
theorem Blurred.chainCounts {s t : List Char} (blurred : Blurred s t) :
    FluentCensus.chainCounts s = FluentCensus.chainCounts t := by
  have stripped : Blurred (Comment.strip s) (Comment.strip t) := blurred.map Blur.strip
  exact congrArg chainLengths stripped.tokens

end FluentCensus
