import FluentCensus.Proofs.Comment.Leftmost

namespace FluentCensus.Comment

@[elab_as_elim]
theorem search_induction {motive : List Char → Prop} (nil : motive [])
    (line : ∀ rest, motive (afterLine rest) → motive ('/' :: '/' :: rest))
    (block : ∀ rest, motive (afterBlock rest) → motive ('/' :: '*' :: rest))
    (slash : motive ['/'])
    (division : ∀ c rest, c ≠ '/' → c ≠ '*' → motive (c :: rest) → motive ('/' :: c :: rest))
    (other : ∀ c rest, c ≠ '/' → motive rest → motive (c :: rest)) (text : List Char) :
    motive text := by
  fun_induction uncomment text with
  | case1 rest ih => exact line rest ih
  | case2 rest ih => exact block rest ih
  | case3 => exact slash
  | case4 c rest noLine noBlock noSlash ih =>
    by_cases isSlash : c = '/'
    · subst isSlash
      cases rest with
      | nil => exact absurd rfl (noSlash rfl)
      | cons d rest =>
        refine division d rest ?_ ?_ ih
        · rintro rfl
          exact noLine rest rfl rfl
        · rintro rfl
          exact noBlock rest rfl rfl
    · exact other c rest isSlash ih
  | case5 => exact nil

@[elab_as_elim]
theorem block_induction {motive : List Char → Prop} (nil : motive [])
    (close : ∀ rest, motive ('*' :: '/' :: rest))
    (inside : ∀ c rest, (c = '*' → rest.head? ≠ some '/') → motive rest → motive (c :: rest))
    (text : List Char) : motive text := by
  fun_induction afterBlock text with
  | case1 rest => exact close rest
  | case2 c rest other ih =>
    refine inside c rest (fun star first => ?_) ih
    obtain ⟨tail, same⟩ := List.head?_eq_some_iff.mp first
    exact other tail star same
  | case3 => exact nil

def takeBlock : List Char → List Char
  | '*' :: '/' :: _ => ['*', '/']
  | c :: rest => c :: takeBlock rest
  | [] => []

theorem takeBlock_inside {c : Char} {text : List Char}
    (inside : c = '*' → text.head? ≠ some '/') : takeBlock (c :: text) = c :: takeBlock text := by
  rw [takeBlock]
  rintro tail rfl rfl
  exact inside rfl rfl

theorem takeBlock_head (text : List Char) : (takeBlock text).head? = text.head? := by
  induction text using block_induction with
  | nil => rfl
  | close rest => rfl
  | inside c rest inside => rw [takeBlock_inside inside, List.head?_cons, List.head?_cons]

theorem takeBlock_append (text : List Char) : takeBlock text ++ afterBlock text = text := by
  induction text using block_induction with
  | nil => rfl
  | close rest => rfl
  | inside c rest inside ih =>
    rw [takeBlock_inside inside, afterBlock_inside inside, List.cons_append, ih]

theorem takeBlock_before (rest : List Char) {text : List Char}
    (closed : afterBlock rest ≠ [] ∨ text = []) :
    takeBlock (takeBlock rest ++ text) = takeBlock rest ∧
    afterBlock (takeBlock rest ++ text) = text := by
  induction rest using block_induction with
  | nil =>
    obtain rfl : text = [] := closed.resolve_left (by simp [afterBlock])
    exact ⟨rfl, rfl⟩
  | close rest => exact ⟨rfl, rfl⟩
  | inside c rest inside ih =>
    rw [afterBlock_inside inside] at closed
    have still : c = '*' → (takeBlock rest ++ text).head? ≠ some '/' := by
      intro star
      rw [List.head?_append, takeBlock_head]
      cases rest with
      | nil =>
        obtain rfl : text = [] := closed.resolve_left (by simp [afterBlock])
        simp
      | cons d rest => simpa using inside star
    obtain ⟨taken, left⟩ := ih closed
    rw [takeBlock_inside inside, List.cons_append, takeBlock_inside still, afterBlock_inside still,
      taken]
    exact ⟨rfl, left⟩

inductive Piece where
  | code (c : Char)
  /-- What follows the two slashes on their line, with the character that ends the line if any. -/
  | line (body : List Char) (last? : Option Char)
  /-- What follows the opener, with the closer if there is one. -/
  | block (body : List Char)
deriving DecidableEq

namespace Piece

def isComment : Piece → Bool
  | code _ => false
  | line _ _ | block _ => true

def source : Piece → List Char
  | code c => [c]
  | line body last? => '/' :: '/' :: (body ++ last?.toList)
  | block body => '/' :: '*' :: body

def kept : Piece → List Char
  | code c => [c]
  | line _ _ | block _ => []

theorem kept_comment {p : Piece} (comment : p.isComment) : p.kept = [] := by
  cases p with
  | code c => cases comment
  | line | block => rfl

def ofLine (text : List Char) : Piece :=
  line (text.takeWhile (!endsLine ·)) (text.dropWhile (!endsLine ·)).head?

theorem ofLine_source (text : List Char) :
    (ofLine text).source ++ afterLine text = '/' :: '/' :: text := by
  have whole : text.takeWhile (!endsLine ·) ++ text.dropWhile (!endsLine ·) = text :=
    List.takeWhile_append_dropWhile
  cases ending : text.dropWhile (!endsLine ·) with
  | nil => simpa [ofLine, source, afterLine, ending] using whole
  | cons c tail => simpa [ofLine, source, afterLine, ending] using whole

theorem block_source (text : List Char) :
    (block (takeBlock text)).source ++ afterBlock text = '/' :: '*' :: text := by
  rw [source, List.cons_append, List.cons_append, takeBlock_append]

end Piece

/-- The comments of a text and its characters outside of them. A slash that ends the text is in
    none of the pieces. -/
def pieces : List Char → List Piece
  | '/' :: '/' :: rest => .ofLine rest :: pieces (afterLine rest)
  | '/' :: '*' :: rest => .block (takeBlock rest) :: pieces (afterBlock rest)
  | ['/'] => []
  | c :: rest => .code c :: pieces rest
  | [] => []
termination_by text => text.length
decreasing_by
  · have := afterLine_length rest
    simp only [List.length_cons]
    omega
  · have := afterBlock_length rest
    simp only [List.length_cons]
    omega
  · simp

@[simp] theorem pieces_nil : pieces [] = [] := by rw [pieces]

@[simp] theorem pieces_slash : pieces ['/'] = [] := by rw [pieces]

theorem pieces_other {c : Char} (other : c ≠ '/') (text : List Char) :
    pieces (c :: text) = .code c :: pieces text := by
  rw [pieces] <;> simp [other]

theorem pieces_division {c : Char} (noLine : c ≠ '/') (noBlock : c ≠ '*') (text : List Char) :
    pieces ('/' :: c :: text) = .code '/' :: .code c :: pieces text := by
  rw [pieces, pieces_other noLine] <;> simp [noLine, noBlock]

theorem pieces_line (rest : List Char) {text : List Char}
    (closed : afterLine rest ≠ [] ∨ text = []) :
    pieces ((Piece.ofLine rest).source ++ text) = .ofLine rest :: pieces text := by
  have whole : rest.takeWhile (!endsLine ·) ++ rest.dropWhile (!endsLine ·) = rest :=
    List.takeWhile_append_dropWhile
  have body : ∀ c ∈ rest.takeWhile (!endsLine ·), !endsLine c :=
    List.all_eq_true.mp List.all_takeWhile
  have stop := List.head?_dropWhile_not (!endsLine ·) rest
  cases ending : rest.dropWhile (!endsLine ·) with
  | nil =>
    obtain rfl : text = [] := closed.resolve_left (by simp [afterLine, ending])
    have unended : rest.takeWhile (!endsLine ·) = rest := by simpa [ending] using whole
    simp [Piece.source, Piece.ofLine, pieces, afterLine, ending, unended]
  | cons c tail =>
    have ends : endsLine c := by simpa [ending] using stop
    have taken : (rest.takeWhile (!endsLine ·) ++ c :: text).takeWhile (!endsLine ·) =
        rest.takeWhile (!endsLine ·) := by
      simp [List.takeWhile_append_of_pos body, ends]
    have dropped : (rest.takeWhile (!endsLine ·) ++ c :: text).dropWhile (!endsLine ·) =
        c :: text := by
      simp [List.dropWhile_append_of_pos body, ends]
    simp [Piece.source, Piece.ofLine, pieces, afterLine, ending, taken, dropped]

theorem pieces_block (rest : List Char) {text : List Char}
    (closed : afterBlock rest ≠ [] ∨ text = []) :
    pieces ((Piece.block (takeBlock rest)).source ++ text) =
      .block (takeBlock rest) :: pieces text := by
  obtain ⟨taken, left⟩ := takeBlock_before rest closed
  rw [Piece.source, List.cons_append, List.cons_append, pieces, taken, left]

theorem pieces_source (text : List Char) :
    (pieces text).flatMap Piece.source = text ∨
    (pieces text).flatMap Piece.source ++ ['/'] = text := by
  induction text using search_induction with
  | nil => exact .inl (by simp)
  | line rest ih =>
    rw [pieces, List.flatMap_cons, List.append_assoc, ← Piece.ofLine_source]
    exact ih.imp (congrArg _) (congrArg _)
  | block rest ih =>
    rw [pieces, List.flatMap_cons, List.append_assoc, ← Piece.block_source]
    exact ih.imp (congrArg _) (congrArg _)
  | slash => exact .inr (by simp)
  | division c rest noLine noBlock ih =>
    rw [pieces_other noLine] at ih
    rw [pieces_division noLine noBlock]
    exact ih.imp (congrArg ('/' :: ·)) (congrArg ('/' :: ·))
  | other c rest noSlash ih =>
    rw [pieces_other noSlash]
    exact ih.imp (congrArg (c :: ·)) (congrArg (c :: ·))

theorem strip_pieces (text : List Char) : strip text = (pieces text).flatMap Piece.kept := by
  rw [strip_uncomment]
  induction text using search_induction with
  | nil => simp [uncomment]
  | line rest ih =>
    rw [uncomment, pieces, ih]
    rfl
  | block rest ih =>
    rw [uncomment, pieces, ih]
    rfl
  | slash => simp [uncomment]
  | division c rest noLine noBlock ih =>
    rw [uncomment_division noLine noBlock, ih, pieces_other noLine, pieces_division noLine noBlock]
    rfl
  | other c rest noSlash ih =>
    rw [uncomment_other noSlash, ih, pieces_other noSlash]
    rfl

end FluentCensus.Comment
