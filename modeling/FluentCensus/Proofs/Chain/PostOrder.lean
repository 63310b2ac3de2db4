import FluentCensus.Proofs.Chain.Expression
import FluentCensus.Proofs.Chain.Statement

namespace FluentCensus

/-- Read in a new scope, the tokens complete these chains but for one that may still be open, and
    leave the scope settled. -/
def Finds (tokens : List Token) (chains : List Nat) : Prop :=
  ∀ before outer, ∃ completed scope,
    Scan.run ⟨before, {} :: outer⟩ tokens = ⟨completed, scope :: outer⟩ ∧
      scope.Settled ∧ scope.chain ++ completed = chains.reverse ++ before

theorem Finds.nil : Finds [] [] := by
  intro before outer
  exact ⟨before, {}, rfl, fun _ => rfl, rfl⟩

theorem Finds.separate {first second : List Token} {found next : List Nat}
    (left : Finds first found) (right : Finds second next) :
    Finds (first ++ .punctuation :: second) (found ++ next) := by
  intro before outer
  obtain ⟨middle, scope, ran, settled, chains⟩ := left before outer
  obtain ⟨completed, last, rest, ended, total⟩ := right (found.reverse ++ before) outer
  refine ⟨completed, last, ?_, ended, ?_⟩
  · rw [Scan.run_append, ran, Scan.run_cons, settled.step, chains, rest]
  · rw [total, List.reverse_append, List.append_assoc]

theorem Finds.around {inside : List Token} {found : List Nat} (inner : Finds inside found)
    (bracket : Bracket) (scope : Scope) (before : List Nat) (outer : List Scope) :
    Scan.run ⟨before, scope :: outer⟩ (bracket.around inside) =
      ⟨found.reverse ++ before, scope.enter (bracket = .round) :: outer⟩ := by
  obtain ⟨completed, last, ran, _, chains⟩ :=
    inner before (scope.enter (bracket = .round) :: outer)
  rw [Bracket.around, List.cons_append, Scan.run_cons, bracket.step_opening, Scan.run_append, ran,
    Scan.run_cons, bracket.step_closing, chains]
  rfl

theorem Finds.finish {tokens : List Token} {chains : List Nat} (found : Finds tokens chains) :
    chainLengths tokens = chains := by
  obtain ⟨completed, scope, ran, _, total⟩ := found [] []
  have order := congrArg List.reverse total
  rw [chainLengths, ran]
  simpa [Scan.finish] using order

-- After a bare group the scope is still at its start, where a dot is ignored and a name is expected
-- all the same. So a segment begins in either of two phases.
def Scope.Ready (scope : Scope) : Prop := scope.phase = .start ∨ scope.phase = .dotted

def Scope.Complete (scope : Scope) : Prop := scope.Settled ∧ scope.phase ≠ .dotted

theorem Scope.Ready.name {scope : Scope} (ready : scope.Ready) (before : List Nat)
    (outer : List Scope) :
    Scan.step ⟨before, scope :: outer⟩ .name = ⟨before, ⟨.named, scope.pending⟩ :: outer⟩ := by
  obtain ⟨phase, pending⟩ := scope
  rcases ready with rfl | rfl <;> rfl

theorem Scope.Complete.dot {scope : Scope} (complete : scope.Complete) (before : List Nat)
    (outer : List Scope) : ∃ next,
    Scan.step ⟨before, scope :: outer⟩ .dot = ⟨before, next :: outer⟩ ∧
      next.Ready ∧ next.pending = scope.pending := by
  obtain ⟨phase, pending⟩ := scope
  cases phase with
  | start => exact ⟨⟨.start, pending⟩, rfl, .inl rfl, rfl⟩
  | named | applied => exact ⟨⟨.dotted, pending⟩, rfl, .inr rfl, rfl⟩
  | dotted => exact absurd rfl complete.2

theorem callCount_append (first second : List Segment) :
    callCount (first ++ second) = callCount first + callCount second :=
  List.countP_append

theorem Segment.applied_enter (bracket : Bracket) (arguments : List Expression) (pending : Nat) :
    Scope.enter ⟨.named, pending⟩ (bracket = .round) =
      ⟨.applied, pending + callCount [.applied bracket arguments]⟩ := by
  cases bracket <;> rfl

mutual

theorem Expression.found (expression : Expression) : Finds expression.tokens expression.chains := by
  match expression with
  | .mk head segments =>
    intro before outer
    obtain ⟨middle, ran, complete, counted⟩ := head.found before outer
    obtain ⟨last, rest, done, total⟩ :=
      Segment.allFound segments middle complete (head.argumentChains.reverse ++ before) outer
    refine ⟨(Segment.allArgumentChains segments).reverse ++ (head.argumentChains.reverse ++ before),
      last, ?_, done.1, ?_⟩
    · rw [Expression.tokens, Scan.run_append, ran, rest]
    · have calls : last.pending = callCount (head.segments ++ segments) := by
        rw [total, counted, callCount_append]
      rw [Scope.chain, calls, Expression.chains]
      cases callCount (head.segments ++ segments) <;> simp

theorem Head.found (head : Head) (before : List Nat) (outer : List Scope) : ∃ scope,
    Scan.run ⟨before, {} :: outer⟩ head.tokens =
      ⟨head.argumentChains.reverse ++ before, scope :: outer⟩ ∧
      scope.Complete ∧ scope.pending = callCount head.segments := by
  match head with
  | .single segment =>
    obtain ⟨scope, ran, complete, counted⟩ := segment.found {} (.inl rfl) before outer
    exact ⟨scope, ran, complete, counted.trans (Nat.zero_add _)⟩
  | .group bracket arguments =>
    have inside := (Expression.allFound arguments).around bracket {} before outer
    exact ⟨{}, inside, ⟨fun _ => rfl, by decide⟩, rfl⟩

theorem Segment.found (segment : Segment) (scope : Scope) (ready : scope.Ready)
    (before : List Nat) (outer : List Scope) : ∃ next,
    Scan.run ⟨before, scope :: outer⟩ segment.tokens =
      ⟨segment.argumentChains.reverse ++ before, next :: outer⟩ ∧
      next.Complete ∧ next.pending = scope.pending + callCount [segment] := by
  match segment with
  | .name =>
    exact ⟨⟨.named, scope.pending⟩, ready.name before outer, ⟨nofun, nofun⟩, rfl⟩
  | .applied bracket arguments =>
    have inside :=
      (Expression.allFound arguments).around bracket ⟨.named, scope.pending⟩ before outer
    refine ⟨⟨.applied, scope.pending + callCount [.applied bracket arguments]⟩, ?_,
      ⟨nofun, nofun⟩, rfl⟩
    rw [Segment.tokens, Scan.run_cons, ready.name, inside, Segment.applied_enter,
      Segment.argumentChains]

theorem Segment.allFound (segments : List Segment) (scope : Scope) (complete : scope.Complete)
    (before : List Nat) (outer : List Scope) : ∃ next,
    Scan.run ⟨before, scope :: outer⟩ (Segment.dotted segments) =
      ⟨(Segment.allArgumentChains segments).reverse ++ before, next :: outer⟩ ∧
      next.Complete ∧ next.pending = scope.pending + callCount segments := by
  match segments with
  | [] => exact ⟨scope, rfl, complete, rfl⟩
  | segment :: rest =>
    obtain ⟨ready, stepped, expects, kept⟩ := complete.dot before outer
    obtain ⟨middle, ran, done, counted⟩ := segment.found ready expects before outer
    obtain ⟨last, remaining, finished, total⟩ :=
      Segment.allFound rest middle done (segment.argumentChains.reverse ++ before) outer
    refine ⟨last, ?_, finished, ?_⟩
    · rw [Segment.dotted, List.cons_append, Scan.run_cons, stepped, Scan.run_append, ran, remaining]
      simp [Segment.allArgumentChains]
    · rw [total, counted, kept, Nat.add_assoc, ← callCount_append]
      rfl

theorem Expression.allFound (expressions : List Expression) :
    Finds (Expression.separated expressions) (Expression.allChains expressions) := by
  match expressions with
  | [] => exact Finds.nil
  | [last] =>
    simpa [Expression.separated, Expression.allChains] using last.found
  | first :: second :: rest =>
    exact first.found.separate (Expression.allFound (second :: rest))

end

theorem chainLengths_program (program : Program) :
    chainLengths program.tokens = program.chains := by
  obtain ⟨expressions, ended⟩ := program
  have found := Expression.allFound expressions
  cases ended with
  | false => simpa [Program.tokens, Program.chains] using found.finish
  | true => simpa [Program.tokens, Program.chains] using (found.separate Finds.nil).finish

end FluentCensus
