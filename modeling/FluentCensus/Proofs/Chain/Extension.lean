import FluentCensus.Proofs.Chain.CallSite

namespace FluentCensus

theorem Scope.chain_congr {scope other : Scope} (same : other.pending = scope.pending) :
    other.chain = scope.chain := by
  rw [chain, chain, same]

theorem Scope.enter_other {scope : Scope} {call : Bool}
    (other : call = true → scope.phase ≠ .named) : (scope.enter call).chain = scope.chain := by
  apply chain_congr
  rw [Scan.enter_pending, if_neg, Nat.add_zero]
  rintro ⟨calls, named⟩
  exact other calls named

theorem Scope.enter_named {scope : Scope} (named : scope.phase = .named) :
    scope.enter true = ⟨.applied, scope.pending + 1⟩ := by
  rw [enter, named]
  rfl

namespace Scan

theorem step_finish {scan : Scan} {token : Token}
    (uncalled : token = .openParen → ∀ scope ∈ scan.scopes.head?, scope.phase ≠ .named) :
    (scan.step token).finish = scan.finish := by
  obtain ⟨completed, scopes⟩ := scan
  cases scopes with
  | nil => rfl
  | cons scope outer =>
    have nothing : Scope.chain {} = [] := rfl
    cases token with
    | closeParen | closeBracket => simp [step, finish]
    | openParen =>
      have same : (scope.enter true).chain = scope.chain :=
        Scope.enter_other fun _ => uncalled rfl scope rfl
      simp [step, finish, nothing, same]
    | openBracket =>
      have same : (scope.enter false).chain = scope.chain :=
        Scope.enter_other fun calls => absurd calls Bool.false_ne_true
      simp [step, finish, nothing, same]
    | punctuation | name | dot =>
      simp only [step]
      cases advanced : scope.advance? _ with
      | none => simp [finish, nothing]
      | some next => simp [finish, Scope.chain_congr (advance_pending advanced)]

theorem run_named {tokens : List Token} {scope : Scope} {outer : List Scope}
    (scopes : (run {} tokens).scopes = scope :: outer) (named : scope.phase = .named) :
    tokens.getLast? = some .name := by
  have reads := run_reads tokens
  rw [Reads, scopes] at reads
  obtain ⟨_, follows, _⟩ := reads
  have position := follows.named_iff.mp named
  by_cases last : tokens.reverse.head? = some .name
  · rwa [List.head?_reverse] at last
  · rw [callPosition_other last] at position
    contradiction

end Scan

/-- The token opens the arguments of a call: it follows a name that has left its scope where a
    parenthesis applies it. -/
def Calls (tokens : List Token) (token : Token) : Prop :=
  token = .openParen ∧ tokens.getLast? = some .name ∧
    (Scan.run {} tokens).scopes.head?.map Scope.phase = some .named

instance (tokens : List Token) (token : Token) : Decidable (Calls tokens token) :=
  inferInstanceAs (Decidable (_ ∧ _ ∧ _))

theorem chainLengths_uncalled {tokens : List Token} {token : Token}
    (uncalled : ¬ Calls tokens token) : chainLengths (tokens ++ [token]) = chainLengths tokens := by
  rw [chainLengths, Scan.run_snoc, chainLengths]
  apply Scan.step_finish
  rintro rfl scope current named
  obtain ⟨outer, scopes⟩ := List.head?_eq_some_iff.mp current
  apply uncalled
  refine ⟨rfl, Scan.run_named scopes named, ?_⟩
  rw [scopes, List.head?_cons, Option.map_some, named]

theorem chainLengths_called {tokens : List Token} {token : Token} (calls : Calls tokens token) :
    ∃ scope outer, (Scan.run {} tokens).scopes = scope :: outer ∧
      chainLengths tokens = (Scan.run {} tokens).completed.reverse ++
        (scope.chain ++ outer.flatMap Scope.chain) ∧
      chainLengths (tokens ++ [token]) = (Scan.run {} tokens).completed.reverse ++
        (scope.pending + 1) :: outer.flatMap Scope.chain := by
  obtain ⟨rfl, _, current⟩ := calls
  obtain ⟨scope, first, named⟩ := Option.map_eq_some_iff.mp current
  obtain ⟨outer, scopes⟩ := List.head?_eq_some_iff.mp first
  refine ⟨scope, outer, scopes, ?_, ?_⟩
  · rw [chainLengths, Scan.finish, scopes, List.flatMap_cons]
  · have inside : Scope.chain {} = [] := rfl
    have raised : Scope.chain ⟨.applied, scope.pending + 1⟩ = [scope.pending + 1] := rfl
    rw [chainLengths, Scan.run_snoc, Scan.step, scopes]
    simp [Scan.finish, Scope.enter_named named, inside, raised]

theorem insertIdx_behind {α : Type} (front back : List α) (a : α) :
    (front ++ back).insertIdx front.length a = front ++ a :: back := by
  induction front with
  | nil => rfl
  | cons first rest ih => exact congrArg (first :: ·) ih

/-- Reading one more token raises the count of the chain that it calls on, or begins one, right
    behind the chains that are finished, and nothing else changes what has been found. -/
theorem chainLengths_snoc (tokens : List Token) (token : Token) :
    (¬ Calls tokens token → chainLengths (tokens ++ [token]) = chainLengths tokens) ∧
    (token ≠ .openParen → chainLengths (tokens ++ [token]) = chainLengths tokens) ∧
    (Calls tokens token → ∃ scope outer, (Scan.run {} tokens).scopes = scope :: outer ∧
      let place := (Scan.run {} tokens).completed.length
      (chainLengths tokens).take place = (Scan.run {} tokens).completed.reverse ∧
      if scope.pending = 0 then
        chainLengths (tokens ++ [token]) = (chainLengths tokens).insertIdx place 1
      else
        (chainLengths tokens)[place]? = some scope.pending ∧
        chainLengths (tokens ++ [token]) =
          (chainLengths tokens).set place (scope.pending + 1)) := by
  refine ⟨chainLengths_uncalled, ?_, ?_⟩
  · intro other
    exact chainLengths_uncalled fun calls => other calls.1
  · intro calls
    obtain ⟨scope, outer, scopes, before, after⟩ := chainLengths_called calls
    refine ⟨scope, outer, scopes, ?_, ?_⟩
    · rw [before, List.take_left' (List.length_reverse ..)]
    · rw [← List.length_reverse, after, before, Scope.chain]
      by_cases none : scope.pending = 0
      · rw [if_pos none, if_pos none, none, List.nil_append, insertIdx_behind]
      · rw [if_neg none, if_neg none]
        simp

theorem chainLengths_snoc_dotted :
    Calls [.name, .openParen, .name, .openParen, .closeParen, .dot, .name] .openParen ∧
    chainLengths [.name, .openParen, .name, .openParen, .closeParen, .dot, .name] = [1, 1] ∧
    chainLengths ([.name, .openParen, .name, .openParen, .closeParen, .dot, .name] ++
      [.openParen]) = [2, 1] := by
  have calls :
      Calls [.name, .openParen, .name, .openParen, .closeParen, .dot, .name] .openParen := by
    decide
  have opened : (Scan.run {} [.name, .openParen, .name, .openParen, .closeParen, .dot,
      .name]).scopes = [⟨.named, 1⟩, ⟨.applied, 1⟩] := by decide
  obtain ⟨scope, outer, scopes, _, raised⟩ := (chainLengths_snoc _ _).2.2 calls
  rw [opened] at scopes
  cases scopes
  rw [if_neg (by decide)] at raised
  exact ⟨calls, by decide, raised.2.trans (by decide)⟩

end FluentCensus
