import FluentCensus.Proofs.Comment.Piece

namespace FluentCensus.Comment

/-- No comment opens anywhere in the text, and no slash at its end waits to open one. -/
structure Plain (text : List Char) : Prop where
  noLine : ¬ ['/', '/'] <:+: text
  noBlock : ¬ ['/', '*'] <:+: text
  noSlash : ¬ ['/'] <:+ text

theorem plain_nil : Plain [] := by
  constructor <;> simp

theorem Plain.tail {c : Char} {text : List Char} (plain : Plain (c :: text)) : Plain text where
  noLine found := plain.noLine (List.infix_cons found)
  noBlock found := plain.noBlock (List.infix_cons found)
  noSlash found := plain.noSlash (found.trans (List.suffix_cons c text))

theorem Plain.cons {c : Char} (other : c ≠ '/') {text : List Char} (plain : Plain text) :
    Plain (c :: text) := by
  have differs (rest : List Char) : ¬ '/' :: rest <+: c :: text := by
    simp [List.cons_prefix_cons, Ne.symm other]
  refine ⟨?_, ?_, ?_⟩
  · rw [List.infix_cons_iff, not_or]
    exact ⟨differs _, plain.noLine⟩
  · rw [List.infix_cons_iff, not_or]
    exact ⟨differs _, plain.noBlock⟩
  · rw [List.suffix_cons_iff, not_or]
    exact ⟨by simp [Ne.symm other], plain.noSlash⟩

theorem Plain.division {c : Char} (noLine : c ≠ '/') (noBlock : c ≠ '*') {text : List Char}
    (plain : Plain (c :: text)) : Plain ('/' :: c :: text) := by
  refine ⟨?_, ?_, ?_⟩
  · rw [List.infix_cons_iff, not_or]
    exact ⟨by simp [List.cons_prefix_cons, Ne.symm noLine], plain.noLine⟩
  · rw [List.infix_cons_iff, not_or]
    exact ⟨by simp [List.cons_prefix_cons, Ne.symm noBlock], plain.noBlock⟩
  · rw [List.suffix_cons_iff, not_or]
    exact ⟨by simp, plain.noSlash⟩

theorem Plain.append {gap : List Char} (noSlash : '/' ∉ gap) {text : List Char}
    (plain : Plain text) : Plain (gap ++ text) := by
  induction gap with
  | nil => exact plain
  | cons c gap ih =>
    rw [List.mem_cons, not_or] at noSlash
    exact (ih noSlash.2).cons (Ne.symm noSlash.1)

theorem plain_pieces {fill : Piece → List Char} (code : ∀ c, fill (.code c) = [c])
    (comment : ∀ p, p.isComment → '/' ∉ fill p) (text : List Char) :
    Plain ((pieces text).flatMap fill) := by
  induction text using search_induction with
  | nil => simpa using plain_nil
  | line rest ih =>
    rw [pieces, List.flatMap_cons]
    exact ih.append (comment _ rfl)
  | block rest ih =>
    rw [pieces, List.flatMap_cons]
    exact ih.append (comment _ rfl)
  | slash => simpa using plain_nil
  | division c rest noLine noBlock ih =>
    -- The character after the slash is kept right behind it.
    rw [pieces_other noLine, List.flatMap_cons, code] at ih
    rw [pieces_division noLine noBlock, List.flatMap_cons, List.flatMap_cons, code, code]
    exact ih.division noLine noBlock
  | other c rest noSlash ih =>
    rw [pieces_other noSlash, List.flatMap_cons, code]
    exact ih.cons noSlash

theorem plain_strip (text : List Char) : Plain (strip text) := by
  rw [strip_pieces]
  refine plain_pieces (fun _ => rfl) (fun p comment => ?_) text
  simp [Piece.kept_comment comment]

theorem strip_plain {text : List Char} (plain : Plain text) : strip text = text := by
  rw [strip_uncomment]
  induction text using search_induction with
  | nil => rw [uncomment]
  | line rest => exact absurd ⟨[], rest, rfl⟩ plain.noLine
  | block rest => exact absurd ⟨[], rest, rfl⟩ plain.noBlock
  | slash => exact absurd (List.suffix_refl _) plain.noSlash
  | division c rest noLine noBlock ih => rw [uncomment_division noLine noBlock, ih plain.tail]
  | other c rest noSlash ih => rw [uncomment_other noSlash, ih plain.tail]

inductive Cut : List Piece → List Piece → Prop where
  | nil : Cut [] []
  | keep (p : Piece) {ps rest : List Piece} : Cut ps rest → Cut (p :: ps) (p :: rest)
  | drop {p : Piece} (comment : p.isComment) {ps rest : List Piece} : Cut ps rest →
      Cut (p :: ps) rest

theorem Cut.code {c : Char} {ps rest : List Piece} (cut : Cut (.code c :: ps) rest) :
    ∃ tail, rest = .code c :: tail ∧ Cut ps tail := by
  cases cut with
  | keep _ cut => exact ⟨_, rfl, cut⟩
  | drop comment => cases comment

theorem Cut.closed {text : List Char} {rest : List Piece} (cut : Cut (pieces text) rest) :
    text ≠ [] ∨ rest.flatMap Piece.source = [] := by
  by_cases last : text = []
  · subst last
    rw [pieces_nil] at cut
    cases cut
    exact .inr rfl
  · exact .inl last

theorem pieces_cut {text : List Char} {rest : List Piece} (cut : Cut (pieces text) rest) :
    pieces (rest.flatMap Piece.source) = rest := by
  induction text using search_induction generalizing rest with
  | nil =>
    rw [pieces_nil] at cut
    cases cut
    exact pieces_nil
  | line after ih =>
    rw [pieces] at cut
    cases cut with
    | keep p cut => rw [List.flatMap_cons, pieces_line after cut.closed, ih cut]
    | drop comment cut => exact ih cut
  | block after ih =>
    rw [pieces] at cut
    cases cut with
    | keep p cut => rw [List.flatMap_cons, pieces_block after cut.closed, ih cut]
    | drop comment cut => exact ih cut
  | slash =>
    rw [pieces_slash] at cut
    cases cut
    exact pieces_nil
  | division c after noLine noBlock ih =>
    rw [pieces_division noLine noBlock] at cut
    obtain ⟨tail, rfl, cutTail⟩ := cut.code
    obtain ⟨last, rfl, cutLast⟩ := cutTail.code
    have same : pieces (c :: last.flatMap Piece.source) = .code c :: last := by
      rw [pieces_other noLine] at ih
      exact ih cutTail
    rw [pieces_other noLine] at same
    simp only [List.flatMap_cons, Piece.source, List.singleton_append]
    rw [pieces_division noLine noBlock, same]
  | other c after noSlash ih =>
    rw [pieces_other noSlash] at cut
    obtain ⟨tail, rfl, cutTail⟩ := cut.code
    rw [List.flatMap_cons, Piece.source, List.singleton_append, pieces_other noSlash, ih cutTail]

/-- Stripping leaves no opener behind and changes no text that has none. Nor do comments that are
    taken out let the characters around them open another: the rest is found as it was. -/
theorem strip_projection (text : List Char) :
    Plain (strip text) ∧ strip (strip text) = strip text ∧ (strip text = text ↔ Plain text) ∧
    ∀ rest, Cut (pieces text) rest → pieces (rest.flatMap Piece.source) = rest := by
  have plain := plain_strip text
  refine ⟨plain, strip_plain plain, ⟨fun same => ?_, strip_plain⟩, fun _ => pieces_cut⟩
  rw [← same]
  exact plain

/-- Without the second comment its neighbours read `//`, but the first slash still closes the
    comment before. -/
theorem strip_projection_between :
    Cut (pieces ['/', '*', 'a', '*', '/', '/', '*', 'b', '*', '/', '/', 'c'])
      [.block ['a', '*', '/'], .code '/', .code 'c'] ∧
    pieces ['/', '*', 'a', '*', '/', '/', 'c'] =
      [.block ['a', '*', '/'], .code '/', .code 'c'] := by
  have found : pieces ['/', '*', 'a', '*', '/', '/', '*', 'b', '*', '/', '/', 'c'] =
      [.block ['a', '*', '/'], .block ['b', '*', '/'], .code '/', .code 'c'] := by
    simp [pieces, takeBlock, afterBlock]
  have cut : Cut (pieces ['/', '*', 'a', '*', '/', '/', '*', 'b', '*', '/', '/', 'c'])
      [.block ['a', '*', '/'], .code '/', .code 'c'] := by
    rw [found]
    exact .keep _ (.drop rfl (.keep _ (.keep _ .nil)))
  obtain ⟨_, _, _, unchanged⟩ := strip_projection
    ['/', '*', 'a', '*', '/', '/', '*', 'b', '*', '/', '/', 'c']
  exact ⟨cut, unchanged _ cut⟩

end FluentCensus.Comment
