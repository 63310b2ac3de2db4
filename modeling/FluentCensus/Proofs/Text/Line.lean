import FluentCensus.Text.Blank
import FluentCensus.Text.Split
import Mathlib

namespace FluentCensus.Text

structure Trimmed (text : List Char) : Prop where
  head : text.head?.any isBlank = false
  last : text.getLast?.any isBlank = false

instance (text : List Char) : Decidable (Trimmed text) :=
  decidable_of_iff (text.head?.any isBlank = false ∧ text.getLast?.any isBlank = false)
    ⟨fun ⟨head, last⟩ => ⟨head, last⟩, fun trimmed => ⟨trimmed.head, trimmed.last⟩⟩

/-- The text has no line end and no character that the system cannot take. -/
def Unbroken (text : List Char) : Prop := ∀ c ∈ text, isLineEnd c = false ∧ c ≠ '\x00'

instance (text : List Char) : Decidable (Unbroken text) := List.decidableBAll _ text

theorem Unbroken.append {first second : List Char} (before : Unbroken first)
    (after : Unbroken second) : Unbroken (first ++ second) := by
  intro c member
  rcases List.mem_append.mp member with member | member
  · exact before c member
  · exact after c member

theorem Unbroken.cons {c : Char} {text : List Char} (first : isLineEnd c = false ∧ c ≠ '\x00')
    (after : Unbroken text) : Unbroken (c :: text) :=
  List.forall_mem_cons.mpr ⟨first, after⟩

def lineEnds : List (List Char) := [[], ['\n'], ['\r'], ['\r', '\n']]

section Trim

variable {c : Char} {text : List Char}

theorem trimRight_solid (solid : isBlank c = false) (before after : List Char) :
    trimRight (before ++ c :: after) = before ++ c :: trimRight after := by
  unfold trimRight
  rw [List.reverse_append, List.reverse_cons, List.append_assoc, List.dropWhile_append]
  by_cases all : (after.reverse.dropWhile isBlank).isEmpty
  · rw [if_pos all, List.isEmpty_iff.mp all]
    simp [solid]
  · rw [if_neg all]
    simp

theorem Trimmed.trimRight (trimmed : Trimmed text) : Text.trimRight text = text := by
  rcases text.eq_nil_or_concat' with rfl | ⟨front, last, rfl⟩
  · rfl
  · have solid : isBlank last = false := by simpa using trimmed.last
    exact trimRight_solid solid front []

theorem trim_solid (solid : isBlank c = false) (after : List Char) :
    trim (c :: after) = c :: trimRight after := by
  have kept : trimLeft (c :: after) = c :: after := List.dropWhile_cons_of_neg (by simp [solid])
  rw [trim, kept]
  exact trimRight_solid solid [] after

theorem Trimmed.trim (trimmed : Trimmed text) : Text.trim text = text := by
  cases text with
  | nil => rfl
  | cons c rest =>
    have kept := trimmed.trimRight
    have solid : isBlank c = false := trimmed.head
    rw [trim_solid solid]
    exact (trimRight_solid solid [] rest).symm.trans kept

theorem trimRight_sublist (text : List Char) : (trimRight text).Sublist text := by
  have shorter : (text.reverse.dropWhile isBlank).Sublist text.reverse :=
    List.dropWhile_sublist isBlank
  have back := shorter.reverse
  rwa [List.reverse_reverse] at back

theorem trim_sublist (text : List Char) : (trim text).Sublist text :=
  (trimRight_sublist _).trans (List.dropWhile_sublist isBlank)

theorem trimRight_trimRight (text : List Char) : trimRight (trimRight text) = trimRight text := by
  unfold trimRight
  rw [List.reverse_reverse, List.dropWhile_idempotent]

end Trim

theorem foldl_unbroken {line : List Char} (unbroken : Unbroken line) (done : List (List Char))
    (before : List Char) :
    line.foldl Lines.step { done, line := before } = { done, line := line.reverse ++ before } := by
  induction line generalizing before with
  | nil => rfl
  | cons c rest ih =>
    obtain ⟨⟨inside, _⟩, later⟩ := List.forall_mem_cons.mp unbroken
    have step : Lines.step { done, line := before } c = { done, line := c :: before } := by
      unfold Lines.step
      rw [if_neg (by simp), if_neg (by simp [inside])]
    rw [List.foldl_cons, step, ih later, List.reverse_cons, List.append_assoc]
    rfl

/-- A file of one line, whether or not the line is ended. -/
theorem lines_unbroken {line ending : List Char} (unbroken : Unbroken line) (filled : line ≠ [])
    (ended : ending ∈ lineEnds) : lines (line ++ ending) = [line] := by
  unfold lines
  rw [List.foldl_append, foldl_unbroken unbroken, List.append_nil]
  simp only [lineEnds, List.mem_cons, List.not_mem_nil, or_false] at ended
  rcases ended with rfl | rfl | rfl | rfl
  · simp [filled]
  · simp [Lines.step, isLineEnd]
  · simp [Lines.step, isLineEnd]
  · simp [Lines.step, isLineEnd]

theorem splitAt?_absent {separator : Char} {before : List Char} (absent : separator ∉ before)
    (after : List Char) :
    splitAt? separator (before ++ separator :: after) = some (before, after) := by
  induction before with
  | nil => simp [splitAt?]
  | cons c rest ih =>
    obtain ⟨other, absent⟩ := List.ne_and_not_mem_of_not_mem_cons absent
    rw [List.cons_append, splitAt?, if_neg other.symm, ih absent]
    rfl

end FluentCensus.Text
