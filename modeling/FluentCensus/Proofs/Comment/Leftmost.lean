import FluentCensus.Source.Comment

namespace FluentCensus.Comment

def endsLine (c : Char) : Bool := c = '\n' ∨ c = '\r'

def afterLine (text : List Char) : List Char := (text.dropWhile (!endsLine ·)).drop 1

def afterBlock : List Char → List Char
  | '*' :: '/' :: rest => rest
  | _ :: rest => afterBlock rest
  | [] => []

theorem afterLine_cons (c : Char) (text : List Char) :
    afterLine (c :: text) = if endsLine c then text else afterLine text := by
  cases ends : endsLine c <;> simp [afterLine, ends]

theorem afterLine_length (text : List Char) : (afterLine text).length ≤ text.length := by
  induction text with
  | nil => simp [afterLine]
  | cons c text ih =>
    rw [afterLine_cons]
    split <;> simp only [List.length_cons] <;> omega

theorem afterBlock_length (text : List Char) : (afterBlock text).length ≤ text.length := by
  fun_induction afterBlock text with
  | case1 rest => simp only [List.length_cons]; omega
  | case2 c rest other ih => simp only [List.length_cons]; omega
  | case3 => simp

/-- The text without the comments that a search from the left finds. -/
def uncomment : List Char → List Char
  | '/' :: '/' :: rest => uncomment (afterLine rest)
  | '/' :: '*' :: rest => uncomment (afterBlock rest)
  | ['/'] => []
  | c :: rest => c :: uncomment rest
  | [] => []
termination_by text => text.length
decreasing_by
  · have := afterLine_length rest
    simp only [List.length_cons]
    omega
  · have := afterBlock_length rest
    simp only [List.length_cons]
    omega
  · simp

theorem afterBlock_inside {c : Char} {text : List Char}
    (inside : c = '*' → text.head? ≠ some '/') : afterBlock (c :: text) = afterBlock text := by
  rw [afterBlock]
  rintro tail rfl rfl
  exact inside rfl rfl

theorem afterBlock_other {c : Char} (other : c ≠ '*') (text : List Char) :
    afterBlock (c :: text) = afterBlock text :=
  afterBlock_inside fun star => absurd star other

theorem afterBlock_star {c : Char} (other : c ≠ '/') (text : List Char) :
    afterBlock ('*' :: c :: text) = afterBlock (c :: text) :=
  afterBlock_inside fun _ => by simpa using other

theorem uncomment_other {c : Char} (other : c ≠ '/') (text : List Char) :
    uncomment (c :: text) = c :: uncomment text := by
  rw [uncomment] <;> simp [other]

theorem uncomment_division {c : Char} (noLine : c ≠ '/') (noBlock : c ≠ '*') (text : List Char) :
    uncomment ('/' :: c :: text) = '/' :: uncomment (c :: text) := by
  rw [uncomment] <;> simp [noLine, noBlock]

def Place.unread : Place → List Char → List Char
  | .code, text => text
  | .slash, text => '/' :: text
  | .line, text => afterLine text
  | .block, text => afterBlock text
  | .star, text => afterBlock ('*' :: text)

theorem unread_step (s : Stripping) (c : Char) (text : List Char) :
    (uncomment ((s.step c).place.unread text)).reverse ++ (s.step c).kept =
      (uncomment (s.place.unread (c :: text))).reverse ++ s.kept := by
  obtain ⟨place, kept⟩ := s
  cases place with
  | code =>
    by_cases slash : c = '/'
    · simp [Stripping.step, Place.unread, slash]
    · simp [Stripping.step, Place.unread, slash, uncomment_other slash]
  | slash =>
    by_cases slash : c = '/'
    · simp [Stripping.step, Place.unread, slash, uncomment]
    · by_cases star : c = '*'
      · simp [Stripping.step, Place.unread, star, uncomment]
      · simp [Stripping.step, Place.unread, slash, star, uncomment_division slash star,
          uncomment_other slash]
  | line =>
    by_cases ends : c = '\n' ∨ c = '\r'
    · simp [Stripping.step, Place.unread, ends, afterLine_cons, endsLine]
    · simp [Stripping.step, Place.unread, ends, afterLine_cons, endsLine]
  | block =>
    by_cases star : c = '*'
    · simp [Stripping.step, Place.unread, star]
    · simp [Stripping.step, Place.unread, star, afterBlock_other star]
  | star =>
    by_cases slash : c = '/'
    · simp [Stripping.step, Place.unread, slash, afterBlock]
    · by_cases star : c = '*'
      · simp [Stripping.step, Place.unread, star, afterBlock_star]
      · simp [Stripping.step, Place.unread, slash, star, afterBlock_star slash,
          afterBlock_other star]

theorem unread_end (place : Place) : uncomment (place.unread []) = [] := by
  cases place <;> simp [Place.unread, afterLine, afterBlock, uncomment]

theorem unread_run (s : Stripping) (text : List Char) :
    (text.foldl Stripping.step s).kept = (uncomment (s.place.unread text)).reverse ++ s.kept := by
  induction text generalizing s with
  | nil => rw [unread_end]; rfl
  | cons c text ih => rw [List.foldl_cons, ih, unread_step]

theorem strip_uncomment (text : List Char) : strip text = uncomment text := by
  rw [strip, unread_run]
  simp [Place.unread]

theorem afterBlock_stars (stars : Nat) (rest : List Char) :
    afterBlock (List.replicate (stars + 1) '*' ++ '/' :: rest) = rest := by
  induction stars with
  | zero => rfl
  | succ stars ih =>
    rw [List.replicate_succ, List.replicate_succ, List.cons_append, List.cons_append,
      afterBlock_star (by decide)]
    exact ih

theorem afterBlock_body (body : List Char) (unclosed : ¬ ['*', '/'] <:+: body) (stars : Nat)
    (rest : List Char) :
    afterBlock (body ++ (List.replicate (stars + 1) '*' ++ '/' :: rest)) = rest := by
  induction body with
  | nil => exact afterBlock_stars stars rest
  | cons c body ih =>
    have tail := ih fun inside => unclosed (List.infix_cons inside)
    by_cases star : c = '*'
    · subst star
      cases body with
      | nil => exact afterBlock_stars (stars + 1) rest
      | cons d body =>
        have noSlash : d ≠ '/' := by
          rintro rfl
          exact unclosed ⟨[], body, rfl⟩
        rw [List.cons_append, List.cons_append, afterBlock_star noSlash]
        exact tail
    · rw [List.cons_append, afterBlock_other star]
      exact tail

theorem afterLine_body (body : List Char) (unended : ∀ c ∈ body, ¬ endsLine c) (last : Char)
    (ends : endsLine last) (rest : List Char) : afterLine (body ++ last :: rest) = rest := by
  induction body with
  | nil => simp [afterLine_cons, ends]
  | cons c body ih =>
    rw [List.cons_append, afterLine_cons, if_neg (unended c List.mem_cons_self)]
    exact ih fun d member => unended d (List.mem_cons_of_mem c member)

/-- The comments are those that a search from the left finds. The slash of an opener closes no
    block comment, any run of stars before a slash does, and nothing else in a comment counts, be
    it an opener of its own kind or of the other. -/
theorem strip_leftmost :
    (∀ text, strip text = uncomment text) ∧
    (∀ rest, strip ('/' :: '*' :: '/' :: rest) = strip ('/' :: '*' :: rest)) ∧
    (∀ body stars rest, ¬ ['*', '/'] <:+: body →
      strip ('/' :: '*' :: (body ++ (List.replicate (stars + 1) '*' ++ '/' :: rest))) =
        strip rest) ∧
    (∀ body last rest, (∀ c ∈ body, ¬ endsLine c) → endsLine last →
      strip ('/' :: '/' :: (body ++ last :: rest)) = strip rest) := by
  refine ⟨strip_uncomment, ?_, ?_, ?_⟩
  · intro rest
    rw [strip_uncomment, strip_uncomment, uncomment, uncomment, afterBlock_other (by decide)]
  · intro body stars rest unclosed
    rw [strip_uncomment, strip_uncomment, uncomment, afterBlock_body body unclosed]
  · intro body last rest unended ends
    rw [strip_uncomment, strip_uncomment, uncomment, afterLine_body body unended last ends]

theorem strip_leftmost_nested :
    ¬ ['*', '/'] <:+: ['a', '/', '*', 'b', '/', '/'] ∧
    strip ['/', '*', 'a', '/', '*', 'b', '/', '/', '*', '*', '/', 'c'] = ['c'] ∧
    (∀ c ∈ ['a', '/', '*'], ¬ endsLine c) ∧ endsLine '\r' ∧
    strip ['/', '/', 'a', '/', '*', '\r', 'b'] = ['b'] := by
  obtain ⟨_, _, block, line⟩ := strip_leftmost
  have unclosed : ¬ ['*', '/'] <:+: ['a', '/', '*', 'b', '/', '/'] := by
    simp [List.infix_cons_iff, List.cons_prefix_cons]
  have unended : ∀ c ∈ ['a', '/', '*'], ¬ endsLine c := by simp [endsLine]
  have ends : endsLine '\r' := by decide
  refine ⟨unclosed, ?_, unended, ends, ?_⟩
  · exact (block _ 1 ['c'] unclosed).trans rfl
  · exact (line _ '\r' ['b'] unended ends).trans rfl

end FluentCensus.Comment
