import FluentCensus.Source.Lexeme

namespace FluentCensus

namespace Lexeme

def startsName (text : List Char) : Bool := text.head?.any isNameChar

@[simp] theorem startsName_nil : startsName [] = false := rfl

@[simp] theorem startsName_cons (c : Char) (text : List Char) :
    startsName (c :: text) = isNameChar c := rfl

theorem single_of_space {c : Char} (space : isSpace c) : single? c = none := by
  have member : c ∈ [' ', '\t', '\n', '\r'] := by simpa [isSpace] using space
  simp only [List.mem_cons, List.not_mem_nil, or_false] at member
  rcases member with rfl | rfl | rfl | rfl <;> decide

theorem space_of_single {c : Char} {token : Token} (single : single? c = some token) :
    isSpace c = false := by
  cases space : isSpace c with
  | false => rfl
  | true =>
    rw [single_of_space space] at single
    cases single

theorem single_ne_name {c : Char} {token : Token} (single : single? c = some token) :
    token ≠ .name := by
  rintro rfl
  unfold single? at single
  split at single <;> simp at single

theorem isNameChar_space {c : Char} (space : isSpace c) : isNameChar c = false := by
  simp [isNameChar, space]

theorem isNameChar_single {c : Char} {token : Token} (single : single? c = some token) :
    isNameChar c = false := by
  simp [isNameChar, single]

theorem isNameChar_cases {c : Char} (name : isNameChar c) :
    isSpace c = false ∧ single? c = none := by
  simpa [isNameChar] using name

theorem startsName_spaces {gap : List Char} (spaces : ∀ c ∈ gap, isSpace c) (filled : gap ≠ [])
    (text : List Char) : startsName (gap ++ text) = false := by
  obtain ⟨c, gap, rfl⟩ := List.exists_cons_of_ne_nil filled
  exact isNameChar_space (spaces c List.mem_cons_self)

theorem run_split (text : List Char) : ∃ run rest, text = run ++ rest ∧
    (∀ c ∈ run, isNameChar c) ∧ startsName rest = false := by
  refine ⟨text.takeWhile isNameChar, text.dropWhile isNameChar,
    List.takeWhile_append_dropWhile.symm, List.all_eq_true.mp List.all_takeWhile, ?_⟩
  have stop := List.head?_dropWhile_not isNameChar text
  unfold startsName
  cases first : (text.dropWhile isNameChar).head? with
  | none => rfl
  | some d => simpa [first] using stop

/-- Every text is empty, or begins with a space, with a character that is a lexeme of its own, or
    with a name that ends where the rest begins. -/
@[elab_as_elim]
theorem text_induction {motive : List Char → Prop} (nil : motive [])
    (space : ∀ c text, isSpace c → motive text → motive (c :: text))
    (single : ∀ c token text, single? c = some token → motive text → motive (c :: text))
    (name : ∀ run text, run ≠ [] → (∀ c ∈ run, isNameChar c) → startsName text = false →
      motive text → motive (run ++ text)) (text : List Char) : motive text := by
  induction length : text.length using Nat.strongRecOn generalizing text with
  | ind n shorter =>
    cases text with
    | nil => exact nil
    | cons c text =>
      have tail : motive text := shorter text.length (by simp [← length]) text rfl
      cases isSpaceC : isSpace c with
      | true => exact space c text isSpaceC tail
      | false =>
        cases singleC : single? c with
        | some token => exact single c token text singleC tail
        | none =>
          have nameC : isNameChar c := by simp [isNameChar, isSpaceC, singleC]
          obtain ⟨run, rest, rfl, names, ends⟩ := run_split text
          have after : motive rest := by
            refine shorter rest.length ?_ rest rfl
            rw [← length, List.length_cons, List.length_append]
            omega
          exact name (c :: run) rest (by simp) (List.forall_mem_cons.mpr ⟨nameC, names⟩) ends after

namespace Lexing

theorem step_space {c : Char} (space : isSpace c) (l : Lexing) :
    l.step c = { done := l.close } := if_pos space

theorem step_single {c : Char} {token : Token} (single : single? c = some token) (l : Lexing) :
    l.step c = { done := ⟨token, [c]⟩ :: l.close } := by
  simp [step, space_of_single single, single]

theorem step_name {c : Char} (name : isNameChar c) (l : Lexing) :
    l.step c = { l with run := c :: l.run } := by
  obtain ⟨space, single⟩ := isNameChar_cases name
  simp [step, space, single]

theorem run_names (l : Lexing) (run : List Char) (names : ∀ c ∈ run, isNameChar c) :
    run.foldl step l = { l with run := run.reverse ++ l.run } := by
  induction run generalizing l with
  | nil => rfl
  | cons c run ih =>
    rw [List.foldl_cons, step_name (names c List.mem_cons_self),
      ih _ fun d member => names d (List.mem_cons_of_mem c member)]
    simp

theorem close_done (l : Lexing) : l.close = close { run := l.run } ++ l.done := by
  unfold close
  split <;> rfl

theorem step_done (l : Lexing) (c : Char) :
    l.step c = ⟨(step { run := l.run } c).done ++ l.done, (step { run := l.run } c).run⟩ := by
  unfold step
  split
  · rw [l.close_done]
  · split
    · rw [l.close_done]
      rfl
    · rfl

theorem run_done (l : Lexing) (text : List Char) :
    (text.foldl step l).close = (text.foldl step { run := l.run }).close ++ l.done := by
  induction text generalizing l with
  | nil => exact l.close_done
  | cons c text ih =>
    rw [List.foldl_cons, List.foldl_cons, ih (l.step c), ih (step { run := l.run } c),
      l.step_done c, List.append_assoc]

end Lexing

end Lexeme

open Lexeme

@[simp] theorem lexemes_nil : lexemes [] = [] := rfl

theorem lexemes_done (done : List Lexeme) (text : List Char) :
    (text.foldl Lexing.step { done }).close.reverse = done.reverse ++ lexemes text := by
  rw [Lexing.run_done, List.reverse_append]
  rfl

theorem lexemes_space {c : Char} (space : isSpace c) (text : List Char) :
    lexemes (c :: text) = lexemes text := by
  rw [lexemes, List.foldl_cons, Lexing.step_space space]
  rfl

theorem lexemes_single {c : Char} {token : Token} (single : single? c = some token)
    (text : List Char) : lexemes (c :: text) = ⟨token, [c]⟩ :: lexemes text := by
  rw [lexemes, List.foldl_cons, Lexing.step_single single]
  exact lexemes_done _ text

theorem lexemes_spaces {gap : List Char} (spaces : ∀ c ∈ gap, isSpace c) (text : List Char) :
    lexemes (gap ++ text) = lexemes text := by
  induction gap with
  | nil => rfl
  | cons c gap ih =>
    rw [List.cons_append, lexemes_space (spaces c List.mem_cons_self)]
    exact ih fun d member => spaces d (List.mem_cons_of_mem c member)

theorem lexemes_name {run : List Char} (filled : run ≠ []) (names : ∀ c ∈ run, isNameChar c)
    {text : List Char} (ends : startsName text = false) :
    lexemes (run ++ text) = ⟨.name, run⟩ :: lexemes text := by
  have opened : lexemes (run ++ text) =
      (text.foldl Lexing.step { run := run.reverse }).close.reverse := by
    rw [lexemes, List.foldl_append, Lexing.run_names _ run names]
    simp
  have closed : Lexing.close { run := run.reverse } = [⟨.name, run⟩] := by
    simp [Lexing.close, filled]
  rw [opened]
  cases text with
  | nil =>
    rw [List.foldl_nil, closed]
    rfl
  | cons c text =>
    rw [List.foldl_cons]
    cases space : isSpace c with
    | true =>
      rw [Lexing.step_space space, closed, lexemes_done, lexemes_space space]
      rfl
    | false =>
      cases single : single? c with
      | some token =>
        rw [Lexing.step_single single, closed, lexemes_done, lexemes_single single]
        rfl
      | none => simp [startsName, isNameChar, space, single] at ends

theorem tokens_space {c : Char} (space : isSpace c) (text : List Char) :
    tokens (c :: text) = tokens text := by
  rw [tokens, lexemes_space space, tokens]

theorem tokens_spaces {gap : List Char} (spaces : ∀ c ∈ gap, isSpace c) (text : List Char) :
    tokens (gap ++ text) = tokens text := by
  rw [tokens, lexemes_spaces spaces, tokens]

theorem tokens_single {c : Char} {token : Token} (single : single? c = some token)
    (text : List Char) : tokens (c :: text) = token :: tokens text := by
  rw [tokens, lexemes_single single, tokens, List.map_cons]

theorem tokens_name {c : Char} (name : isNameChar c) (text : List Char) :
    tokens (c :: text) = if startsName text then tokens text else .name :: tokens text := by
  cases starts : startsName text with
  | false =>
    have alone : lexemes ([c] ++ text) = ⟨.name, [c]⟩ :: lexemes text :=
      lexemes_name (by simp) (by simpa using name) starts
    rw [tokens, ← List.singleton_append, alone]
    rfl
  | true =>
    induction text using text_induction with
    | nil => cases starts
    | space d text space => simp [isNameChar_space space] at starts
    | single d token text single => simp [isNameChar_single single] at starts
    | name run text filled names ends =>
      have longer : ∀ d ∈ c :: run, isNameChar d := by
        intro d member
        rcases List.mem_cons.mp member with rfl | member
        · exact name
        · exact names d member
      rw [if_pos rfl, tokens, tokens, lexemes_name filled names ends, ← List.cons_append,
        lexemes_name (by simp) longer ends]
      rfl

end FluentCensus
