import FluentCensus.Proofs.Chain.Statement

namespace FluentCensus

namespace Scan

theorem run_finish (completed : List Nat) (scopes : List Scope) (tokens : List Token) :
    (Scan.run ⟨completed, scopes⟩ tokens).finish =
      completed.reverse ++ (Scan.run ⟨[], scopes⟩ tokens).finish := by
  have framed : Scan.within ⟨[], scopes⟩ completed [] = ⟨completed, scopes⟩ := by simp [within]
  rw [← framed, run_before, finish_before]

theorem run_open {tokens : List Token} (matched : nesting? 0 tokens ≠ none) :
    ∃ completed scope outer, Scan.run {} tokens = ⟨completed, scope :: outer⟩ := by
  obtain ⟨depth, nested⟩ := Option.ne_none_iff_exists'.mp matched
  have opened := (run_within {} tokens [] [] rfl nested).2
  obtain ⟨scope, outer, scopes⟩ := List.exists_cons_of_length_eq_add_one opened
  exact ⟨(Scan.run {} tokens).completed, scope, outer, by rw [← scopes]⟩

end Scan

/-- A group adds the chains of its inside, read alone, to those that it has when it is empty. -/
theorem Balanced.group {inside : List Token} (balanced : Balanced inside) (opener closer : Bracket)
    (completed : List Nat) (scope : Scope) (outer : List Scope) :
    Scan.run ⟨completed, scope :: outer⟩ (opener.opening :: inside ++ [closer.closing]) =
      ⟨(chainLengths inside).reverse ++ completed, scope.enter (opener = .round) :: outer⟩ := by
  obtain ⟨found, last, ran⟩ := balanced.run {}
  have alone : chainLengths inside = found.reverse ++ last.chain := by
    have returns := ran [] []
    simp only [List.append_nil] at returns
    simp [chainLengths, returns, Scan.finish]
  rw [List.cons_append, Scan.run_cons, opener.step_opening, Scan.run_append, ran, Scan.run_cons,
    closer.step_closing, alone]
  simp

theorem chainLengths_inside (before after : List Token) (matched : nesting? 0 before ≠ none)
    (opener : Bracket) : ∃ earlier later : List Nat,
      ∀ (inside : List Token) (closer : Bracket), Balanced inside →
        chainLengths (before ++ [opener.opening] ++ inside ++ [closer.closing] ++ after) =
          earlier ++ chainLengths inside ++ later ∧
        chainLengths (before ++ [opener.opening, closer.closing] ++ after) =
          earlier ++ later := by
  obtain ⟨completed, scope, outer, ran⟩ := Scan.run_open matched
  have grouped (inside : List Token) (closer : Bracket) (balanced : Balanced inside) :
      chainLengths (before ++ (opener.opening :: inside ++ [closer.closing]) ++ after) =
        completed.reverse ++ chainLengths inside ++
          (Scan.run ⟨[], scope.enter (opener = .round) :: outer⟩ after).finish := by
    rw [List.append_assoc, chainLengths_append ran, Scan.run_append, balanced.group,
      Scan.run_finish]
    simp
  refine ⟨completed.reverse,
    (Scan.run ⟨[], scope.enter (opener = .round) :: outer⟩ after).finish, ?_⟩
  intro inside closer balanced
  have nothing : chainLengths [] = [] := rfl
  constructor
  · simpa using grouped inside closer balanced
  · simpa [nothing] using grouped [] closer rfl

theorem chainLengths_inside_arguments :
    nesting? 0 [.name, .openParen, .name] ≠ none ∧
    Balanced [.name, .openParen, .closeParen, .punctuation, .name] ∧
    ∃ earlier later : List Nat,
      chainLengths [.name, .openParen, .name, .openBracket, .name, .openParen, .closeParen,
        .punctuation, .name, .closeParen, .closeParen, .dot, .name, .openParen] =
        earlier ++ [1] ++ later ∧
      chainLengths [.name, .openParen, .name, .openBracket, .closeParen, .closeParen, .dot, .name,
        .openParen] = earlier ++ later := by
  have matched : nesting? 0 [.name, .openParen, .name] ≠ none := by decide
  have balanced : Balanced [.name, .openParen, .closeParen, .punctuation, .name] := by decide
  refine ⟨matched, balanced, ?_⟩
  obtain ⟨earlier, later, replaced⟩ := chainLengths_inside [.name, .openParen, .name]
    [.closeParen, .dot, .name, .openParen] matched .square
  exact ⟨earlier, later, replaced _ .round balanced⟩

end FluentCensus
