import FluentCensus.Chain
import FluentCensus.Proofs.Comment.Plain
import FluentCensus.Proofs.Source.Widening

namespace FluentCensus.Comment

def Piece.spaced : Piece → List Char
  | code c => [c]
  | line _ _ | block _ => [' ']

theorem Piece.spaced_comment {p : Piece} (comment : p.isComment) : p.spaced = [' '] := by
  cases p with
  | code c => cases comment
  | line | block => rfl

def spaced (text : List Char) : List Char := (pieces text).flatMap Piece.spaced

theorem widens_spaced : Widens Piece.isComment Piece.spaced where
  code _ _ := rfl
  space _ space := gap_one space
  gap p comment _ := by
    rw [Piece.spaced_comment comment]
    exact gap_one rfl
  nothing p comment other := by
    rw [comment] at other
    cases other

theorem plain_spaced (text : List Char) : Plain (spaced text) := by
  refine plain_pieces (fun _ => rfl) (fun p comment => ?_) text
  simp [Piece.spaced_comment comment]

/-- A comment counts as space, but for the places where two names stand next to each other when the
    comments between them are gone. There is one name more for every such place. -/
theorem tokens_spaced (text : List Char) :
    ((pieces text).flatMap Piece.source = text ∨
      (pieces text).flatMap Piece.source ++ ['/'] = text) ∧
    strip text = (pieces text).flatMap Piece.kept ∧
    (tokens (strip text) = tokens (spaced text) ↔ ¬ Joined Piece.isComment (pieces text)) ∧
    (tokens (spaced text)).length =
      (tokens (strip text)).length + joints Piece.isComment (pieces text) ∧
    (¬ Joined Piece.isComment (pieces text) → chainCounts (spaced text) = chainCounts text) := by
  have further := widens_spaced.further (pieces text)
  rw [← strip_pieces] at further
  have same : tokens (strip text) = tokens (spaced text) ↔ ¬ Joined Piece.isComment (pieces text) :=
    further.same_iff.trans (joints_eq_zero _ _)
  refine ⟨pieces_source text, strip_pieces text, same, further.length, fun apart => ?_⟩
  rw [chainCounts, chainCounts, strip_plain (plain_spaced text), same.mpr apart]

theorem tokens_spaced_calls :
    ¬ Joined Piece.isComment
      (pieces ['a', '/', '*', '*', '/', '.', 'b', '/', '/', '\n', '(', ')']) ∧
    chainCounts ['a', ' ', '.', 'b', ' ', '(', ')'] =
      chainCounts ['a', '/', '*', '*', '/', '.', 'b', '/', '/', '\n', '(', ')'] := by
  have found : pieces ['a', '/', '*', '*', '/', '.', 'b', '/', '/', '\n', '(', ')'] =
      [.code 'a', .block ['*', '/'], .code '.', .code 'b', .line [] (some '\n'), .code '(',
        .code ')'] := by
    simp [pieces, takeBlock, afterBlock, afterLine, Piece.ofLine, endsLine]
  have apart : ¬ Joined Piece.isComment
      (pieces ['a', '/', '*', '*', '/', '.', 'b', '/', '/', '\n', '(', ')']) := by
    rw [← joints_eq_zero, found]
    decide
  have filled : spaced ['a', '/', '*', '*', '/', '.', 'b', '/', '/', '\n', '(', ')'] =
      ['a', ' ', '.', 'b', ' ', '(', ')'] := by
    rw [spaced, found]
    rfl
  obtain ⟨_, _, _, _, unchanged⟩ := tokens_spaced
    ['a', '/', '*', '*', '/', '.', 'b', '/', '/', '\n', '(', ')']
  rw [filled] at unchanged
  exact ⟨apart, unchanged apart⟩

end FluentCensus.Comment
