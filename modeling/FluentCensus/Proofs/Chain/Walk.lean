import FluentCensus.Chain

namespace FluentCensus

structure Walk (tokens : List Token) where
  chains : List Nat
  rest : List Token
  bound : rest.length ≤ tokens.length

/-- One scope by recursion. A call of its own walks the inside of a bracket, whose chains come
    before those of the scope, and the scope goes on with the tokens that the call left. -/
def Scope.walk (scope : Scope) : (tokens : List Token) → Walk tokens
  | [] => ⟨scope.chain, [], Nat.le_refl _⟩
  | token :: tokens =>
    match token with
    | .closeParen | .closeBracket => ⟨scope.chain, tokens, Nat.le_succ _⟩
    | .openParen | .openBracket =>
      let inner := walk {} tokens
      let onward := walk (scope.enter (token = .openParen)) inner.rest
      ⟨inner.chains ++ onward.chains, onward.rest,
        Nat.le_succ_of_le (Nat.le_trans onward.bound inner.bound)⟩
    | token =>
      match scope.advance? token with
      | some next =>
        let onward := walk next tokens
        ⟨onward.chains, onward.rest, Nat.le_succ_of_le onward.bound⟩
      | none =>
        let onward := walk {} tokens
        ⟨scope.chain ++ onward.chains, onward.rest, Nat.le_succ_of_le onward.bound⟩
termination_by tokens => tokens.length
decreasing_by
  all_goals first
    | exact Nat.lt_succ_self _
    | exact Nat.lt_succ_of_le (Walk.bound _)

/-- The walks that a stack of open scopes has still to finish, the innermost first. -/
def walkAll : List Scope → List Token → List Nat
  | [], _ => []
  | scope :: outer, tokens => (scope.walk tokens).chains ++ walkAll outer (scope.walk tokens).rest

theorem walkAll_nil (scopes : List Scope) : walkAll scopes [] = scopes.flatMap Scope.chain := by
  induction scopes with
  | nil => rfl
  | cons scope outer ih => simp [walkAll, Scope.walk, ih]

theorem walkAll_step (scan : Scan) (token : Token) (tokens : List Token) :
    (scan.step token).completed.reverse ++ walkAll (scan.step token).scopes tokens =
      scan.completed.reverse ++ walkAll scan.scopes (token :: tokens) := by
  obtain ⟨completed, scopes⟩ := scan
  cases scopes with
  | nil => rfl
  | cons scope outer =>
    cases token with
    | openParen | openBracket => simp [Scan.step, walkAll, Scope.walk]
    | closeParen | closeBracket => simp [Scan.step, walkAll, Scope.walk]
    | punctuation | name | dot =>
      simp only [Scan.step, walkAll, Scope.walk]
      cases scope.advance? _ <;> simp [walkAll]

theorem walkAll_run (scan : Scan) (tokens : List Token) :
    (scan.run tokens).finish = scan.completed.reverse ++ walkAll scan.scopes tokens := by
  induction tokens generalizing scan with
  | nil =>
    rw [walkAll_nil]
    rfl
  | cons token tokens ih => rw [Scan.run_cons, ih, walkAll_step]

theorem chainLengths_walk (tokens : List Token) :
    chainLengths tokens = (Scope.walk {} tokens).chains := by
  have whole := walkAll_run {} tokens
  simpa [chainLengths, walkAll] using whole

end FluentCensus
