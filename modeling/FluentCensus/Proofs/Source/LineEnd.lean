import FluentCensus.Chain
import FluentCensus.Proofs.Source.Widening

namespace FluentCensus.Comment

open Lexeme (isSpace)

def crlf (text : List Char) : List Char :=
  text.flatMap fun c => if c = '\n' then ['\r', '\n'] else [c]

theorem crlf_feed (text : List Char) : crlf ('\n' :: text) = '\r' :: '\n' :: crlf text := rfl

theorem crlf_other {c : Char} (other : c ≠ '\n') (text : List Char) :
    crlf (c :: text) = c :: crlf text := by
  rw [crlf, List.flatMap_cons, if_neg other]
  rfl

def Piece.feeds : Piece → Bool
  | line _ last? => last? = some '\n'
  | code _ | block _ => false

def Piece.crlf : Piece → List Char
  | code c => if c = '\n' then ['\r', '\n'] else [c]
  | line _ last? => if last? = some '\n' then ['\n'] else []
  | block _ => []

theorem crlf_slash {text : List Char} (first : (crlf text).head? = some '/') :
    text.head? = some '/' := by
  cases text with
  | nil => cases first
  | cons c text =>
    by_cases feed : c = '\n'
    · subst feed
      simp [crlf_feed] at first
    · rw [crlf_other feed] at first
      exact first

theorem ofLine_cons {c : Char} (other : endsLine c = false) (text : List Char) :
    (Piece.ofLine (c :: text)).crlf = (Piece.ofLine text).crlf := by
  simp [Piece.ofLine, Piece.crlf, other]

theorem afterLine_crlf (text : List Char) :
    afterLine (crlf text) = (Piece.ofLine text).crlf ++ crlf (afterLine text) := by
  induction text with
  | nil => rfl
  | cons c text ih =>
    by_cases feed : c = '\n'
    · -- The carriage return ends the comment, so the line feed behind it is left.
      subst feed
      rfl
    · rw [crlf_other feed, afterLine_cons, afterLine_cons]
      cases ends : endsLine c with
      | false =>
        rw [ofLine_cons ends]
        exact ih
      | true =>
        obtain rfl : c = '\r' := by simpa [endsLine, feed] using ends
        rfl

theorem afterBlock_crlf (text : List Char) : afterBlock (crlf text) = crlf (afterBlock text) := by
  induction text using block_induction with
  | nil => rfl
  | close rest => rfl
  | inside c rest inside ih =>
    rw [afterBlock_inside inside, ← ih]
    by_cases feed : c = '\n'
    · subst feed
      rw [crlf_feed, afterBlock_other (by decide), afterBlock_other (by decide)]
    · rw [crlf_other feed]
      exact afterBlock_inside fun star first => inside star (crlf_slash first)

theorem uncomment_line (text rest : List Char) :
    uncomment ((Piece.ofLine text).crlf ++ rest) = (Piece.ofLine text).crlf ++ uncomment rest := by
  rw [Piece.ofLine, Piece.crlf]
  split
  · exact uncomment_other (by decide) rest
  · rfl

theorem strip_crlf (text : List Char) : strip (crlf text) = (pieces text).flatMap Piece.crlf := by
  rw [strip_uncomment]
  induction text using search_induction with
  | nil => simp [crlf, uncomment]
  | line rest ih =>
    rw [crlf_other (by decide), crlf_other (by decide), uncomment, afterLine_crlf, uncomment_line,
      ih, pieces, List.flatMap_cons]
  | block rest ih =>
    rw [crlf_other (by decide), crlf_other (by decide), uncomment, afterBlock_crlf, ih, pieces]
    rfl
  | slash => simp [crlf, uncomment]
  | division c rest noLine noBlock ih =>
    have divided : uncomment ('/' :: crlf (c :: rest)) = '/' :: uncomment (crlf (c :: rest)) := by
      by_cases feed : c = '\n'
      · subst feed
        exact uncomment_division (by decide) (by decide) _
      · rw [crlf_other feed]
        exact uncomment_division noLine noBlock _
    rw [crlf_other (by decide), divided, ih, pieces_other noLine, pieces_division noLine noBlock]
    rfl
  | other c rest noSlash ih =>
    rw [pieces_other noSlash, List.flatMap_cons, ← ih]
    by_cases feed : c = '\n'
    · subst feed
      rw [crlf_feed, uncomment_other (by decide), uncomment_other (by decide)]
      rfl
    · rw [crlf_other feed, uncomment_other noSlash, Piece.crlf, if_neg feed]
      rfl

theorem widens_crlf : Widens Piece.feeds Piece.crlf where
  code c solid := by
    refine if_neg ?_
    rintro rfl
    cases solid
  space c space := by
    by_cases feed : c = '\n'
    · subst feed
      exact (gap_one rfl).cons rfl
    · rw [Piece.crlf, if_neg feed]
      exact gap_one space
  gap p comment feeds := by
    cases p with
    | line body last? =>
      rw [Piece.crlf, if_pos (of_decide_eq_true feeds)]
      exact gap_one rfl
    | code | block => cases feeds
  nothing p comment silent := by
    cases p with
    | line body last? => exact if_neg (of_decide_eq_false silent)
    | code => cases comment
    | block => rfl

/-- Carriage returns before the line feeds change nothing, but for the places where a line comment
    goes with its line feed and so lets two names join. The carriage return leaves the feed
    there. -/
theorem chainCounts_crlf (text : List Char) :
    (tokens (strip text) = tokens (strip (crlf text)) ↔ ¬ Joined Piece.feeds (pieces text)) ∧
    (tokens (strip (crlf text))).length =
      (tokens (strip text)).length + joints Piece.feeds (pieces text) ∧
    (¬ Joined Piece.feeds (pieces text) → chainCounts (crlf text) = chainCounts text) := by
  have further := widens_crlf.further (pieces text)
  rw [← strip_pieces, ← strip_crlf] at further
  have same : tokens (strip text) = tokens (strip (crlf text)) ↔
      ¬ Joined Piece.feeds (pieces text) := further.same_iff.trans (joints_eq_zero _ _)
  refine ⟨same, further.length, fun apart => ?_⟩
  rw [chainCounts, chainCounts, same.mpr apart]

theorem chainCounts_crlf_chain :
    ¬ Joined Piece.feeds (pieces ['a', '(', ')', '/', '/', '\n', '.', 'b', '(', ')']) ∧
    chainCounts (crlf ['a', '(', ')', '/', '/', '\n', '.', 'b', '(', ')']) =
      chainCounts ['a', '(', ')', '/', '/', '\n', '.', 'b', '(', ')'] := by
  have found : pieces ['a', '(', ')', '/', '/', '\n', '.', 'b', '(', ')'] =
      [.code 'a', .code '(', .code ')', .line [] (some '\n'), .code '.', .code 'b', .code '(',
        .code ')'] := by
    simp [pieces, afterLine, Piece.ofLine, endsLine]
  have apart : ¬ Joined Piece.feeds
      (pieces ['a', '(', ')', '/', '/', '\n', '.', 'b', '(', ')']) := by
    rw [← joints_eq_zero, found]
    decide
  obtain ⟨_, _, unchanged⟩ := chainCounts_crlf ['a', '(', ')', '/', '/', '\n', '.', 'b', '(', ')']
  exact ⟨apart, unchanged apart⟩

theorem crlf_parts_call :
    '\r' ∉ ['a', '/', '/', '\n', 'b', '(', ')'] ∧
    chainCounts (crlf ['a', '/', '/', '\n', 'b', '(', ')']) ≠
      chainCounts ['a', '/', '/', '\n', 'b', '(', ')'] := by
  decide

end FluentCensus.Comment
