import FluentCensus.Proofs.Chain.Nesting

namespace FluentCensus

/-- No calls are pending at the start of an item. A bracket after a call, an index or a dot can
    break this, since it starts the scope afresh but keeps its count. -/
def Scope.Settled (scope : Scope) : Prop := scope.phase = .start → scope.pending = 0

instance (scope : Scope) : Decidable scope.Settled :=
  inferInstanceAs (Decidable (scope.phase = .start → scope.pending = 0))

theorem Scope.Settled.step {scope : Scope} (settled : scope.Settled) (completed : List Nat)
    (outer : List Scope) :
    Scan.step ⟨completed, scope :: outer⟩ .punctuation =
      ⟨scope.chain ++ completed, {} :: outer⟩ := by
  obtain ⟨phase, pending⟩ := scope
  cases phase with
  | start =>
    have zero : pending = 0 := settled rfl
    subst zero
    rfl
  | named | applied | dotted => rfl

theorem Scope.unsettled_step {scope : Scope} (unsettled : ¬ scope.Settled)
    (completed : List Nat) (outer : List Scope) :
    Scan.step ⟨completed, scope :: outer⟩ .punctuation = ⟨completed, scope :: outer⟩ := by
  obtain ⟨phase, pending⟩ := scope
  cases phase with
  | start => rfl
  | named | applied | dotted => exact absurd (fun start => by cases start) unsettled

def Settled (tokens : List Token) : Prop := ∀ scope ∈ (Scan.run {} tokens).scopes, scope.Settled

instance (tokens : List Token) : Decidable (Settled tokens) :=
  inferInstanceAs (Decidable (∀ scope ∈ (Scan.run {} tokens).scopes, scope.Settled))

theorem settled_iff {tokens : List Token} {completed : List Nat} {scope : Scope}
    (ended : Scan.run {} tokens = ⟨completed, [scope]⟩) : Settled tokens ↔ scope.Settled := by
  simp [Settled, ended]

theorem chainLengths_append {first : List Token} {scan : Scan} (ended : Scan.run {} first = scan)
    (second : List Token) : chainLengths (first ++ second) = (scan.run second).finish := by
  rw [chainLengths, Scan.run_append, ended]

theorem afresh_finish (completed : List Nat) (tokens : List Token) :
    (Scan.run ⟨completed, [{}]⟩ tokens).finish = completed.reverse ++ chainLengths tokens := by
  have start : Scan.within {} completed [] = ⟨completed, [{}]⟩ := rfl
  rw [← start, Scan.run_before, Scan.finish_before]
  rfl

theorem chainLengths_punctuation {first : List Token} (balanced : Balanced first)
    (second : List Token) :
    chainLengths (first ++ [.punctuation] ++ second) =
      if Settled first then chainLengths first ++ chainLengths second
      else chainLengths (first ++ second) := by
  obtain ⟨completed, scope, ended⟩ := balanced.ended
  have stepped : chainLengths (first ++ [.punctuation] ++ second) =
      ((Scan.step ⟨completed, [scope]⟩ .punctuation).run second).finish := by
    rw [List.append_assoc, chainLengths_append ended]
    rfl
  by_cases settled : Settled first
  · have alone : chainLengths first = completed.reverse ++ scope.chain := by
      simp [chainLengths, ended, Scan.finish]
    rw [if_pos settled, stepped, ((settled_iff ended).mp settled).step, afresh_finish, alone]
    simp
  · have unsettled : ¬ scope.Settled := mt (settled_iff ended).mpr settled
    rw [if_neg settled, stepped, Scope.unsettled_step unsettled, chainLengths_append ended]

theorem unsettled_call {first : List Token} (balanced : Balanced first)
    (unsettled : ¬ Settled first) :
    chainLengths (first ++ [.name, .openParen, .closeParen]) ≠ chainLengths first ++ [1] := by
  obtain ⟨completed, scope, ended⟩ := balanced.ended
  obtain ⟨phase, pending⟩ := scope
  have start : phase = .start ∧ pending ≠ 0 := by
    simpa [settled_iff ended, Scope.Settled] using unsettled
  obtain ⟨rfl, calls⟩ := start
  have alone : chainLengths first = completed.reverse ++ [pending] := by
    simp [chainLengths, ended, Scan.finish, Scope.chain, calls]
  have joined : chainLengths (first ++ [.name, .openParen, .closeParen]) =
      completed.reverse ++ [pending + 1] := by
    rw [chainLengths_append ended]
    simp [Scan.step, Scope.advance?, Scope.enter, Scan.finish, Scope.chain]
  rw [alone, joined]
  simp

/-- Punctuation separates balanced tokens from whatever follows exactly if they leave their scope
    settled. If they do not, it is as if it were left out. -/
theorem chainLengths_separated (first : List Token) (balanced : Balanced first) :
    ((∀ second, chainLengths (first ++ [.punctuation] ++ second) =
      chainLengths first ++ chainLengths second) ↔ Settled first) ∧
    (¬ Settled first → ∀ second,
      chainLengths (first ++ [.punctuation] ++ second) = chainLengths (first ++ second)) := by
  refine ⟨⟨?_, ?_⟩, ?_⟩
  · intro separated
    apply Decidable.byContradiction
    intro unsettled
    -- One call is enough to tell, since the pending ones are counted with it.
    have call := separated [.name, .openParen, .closeParen]
    rw [chainLengths_punctuation balanced, if_neg unsettled] at call
    exact unsettled_call balanced unsettled call
  · intro settled second
    rw [chainLengths_punctuation balanced, if_pos settled]
  · intro unsettled second
    rw [chainLengths_punctuation balanced, if_neg unsettled]

theorem chainLengths_separated_calls :
    Balanced [.name, .openParen, .name, .closeParen, .dot, .name] ∧
    chainLengths ([.name, .openParen, .name, .closeParen, .dot, .name] ++ [.punctuation] ++
      [.name, .openParen, .closeParen]) = [1, 1] := by
  have balanced : Balanced [.name, .openParen, .name, .closeParen, .dot, .name] := by decide
  refine ⟨balanced, ?_⟩
  rw [(chainLengths_separated _ balanced).1.mpr (by decide)]
  decide

/-- The index after the first call hides the end of the statement. -/
theorem indexed_call_joins :
    Balanced [.name, .openParen, .closeParen, .openBracket, .name, .closeBracket] ∧
    chainLengths ([.name, .openParen, .closeParen, .openBracket, .name, .closeBracket] ++
      [.punctuation] ++ [.name, .openParen, .closeParen]) = [2] ∧
    chainLengths [.name, .openParen, .closeParen, .openBracket, .name, .closeBracket] ++
      chainLengths [.name, .openParen, .closeParen] = [1, 1] := by
  decide

end FluentCensus
