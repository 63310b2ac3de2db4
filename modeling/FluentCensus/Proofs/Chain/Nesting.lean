import FluentCensus.Chain

namespace FluentCensus

inductive Bracket where
  | round
  | square
deriving DecidableEq

def Bracket.opening : Bracket → Token
  | .round => .openParen
  | .square => .openBracket

def Bracket.closing : Bracket → Token
  | .round => .closeParen
  | .square => .closeBracket

theorem Bracket.step_opening (bracket : Bracket) (completed : List Nat) (scope : Scope)
    (outer : List Scope) :
    Scan.step ⟨completed, scope :: outer⟩ bracket.opening =
      ⟨completed, {} :: scope.enter (bracket = .round) :: outer⟩ := by
  cases bracket <;> rfl

theorem Bracket.step_closing (bracket : Bracket) (completed : List Nat) (scope : Scope)
    (outer : List Scope) :
    Scan.step ⟨completed, scope :: outer⟩ bracket.closing = ⟨scope.chain ++ completed, outer⟩ := by
  cases bracket <;> rfl

def Token.nest? (depth : Nat) : Token → Option Nat
  | .openParen | .openBracket => some (depth + 1)
  | .closeParen | .closeBracket =>
    match depth with
    | 0 => none
    | outer + 1 => some outer
  | .punctuation | .name | .dot => some depth

/-- The brackets open after the tokens, or none if one is closed that was not opened. Either kind
    closes what either kind has opened. -/
def nesting? (depth : Nat) (tokens : List Token) : Option Nat := tokens.foldlM Token.nest? depth

@[simp] theorem nesting?_nil (depth : Nat) : nesting? depth [] = some depth := rfl

@[simp] theorem nesting?_cons (depth : Nat) (token : Token) (tokens : List Token) :
    nesting? depth (token :: tokens) = (token.nest? depth).bind (nesting? · tokens) := rfl

def Balanced (tokens : List Token) : Prop := nesting? 0 tokens = some 0

instance (tokens : List Token) : Decidable (Balanced tokens) :=
  inferInstanceAs (Decidable (nesting? 0 tokens = some 0))

namespace Scan

def within (scan : Scan) (before : List Nat) (outer : List Scope) : Scan :=
  ⟨scan.completed ++ before, scan.scopes ++ outer⟩

theorem step_within (scan : Scan) (token : Token) (before : List Nat) (outer : List Scope)
    (inside : scan.scopes ≠ [] ∨ outer = []) :
    (scan.within before outer).step token = (scan.step token).within before outer := by
  obtain ⟨completed, scopes⟩ := scan
  cases scopes with
  | nil =>
    rcases inside with inside | rfl
    · exact absurd rfl inside
    · rfl
  | cons scope inner =>
    cases token with
    | openParen | openBracket => rfl
    | closeParen | closeBracket => simp [step, within]
    | punctuation | name | dot =>
      simp only [step, within, List.cons_append]
      cases scope.advance? _ <;> simp

theorem step_depth (scan : Scan) (token : Token) {depth deeper : Nat}
    (opened : scan.scopes.length = depth + 1) (nested : token.nest? depth = some deeper) :
    (scan.step token).scopes.length = deeper + 1 := by
  obtain ⟨completed, scopes⟩ := scan
  cases scopes with
  | nil => simp at opened
  | cons scope outer =>
    have below : outer.length = depth := by simpa using opened
    cases token with
    | openParen | openBracket =>
      have deep : depth + 1 = deeper := by simpa [Token.nest?] using nested
      simp [step, below, deep]
    | closeParen | closeBracket =>
      cases depth with
      | zero => simp [Token.nest?] at nested
      | succ depth =>
        have deep : depth = deeper := by simpa [Token.nest?] using nested
        simp [step, below, deep]
    | punctuation | name | dot =>
      have deep : depth = deeper := by simpa [Token.nest?] using nested
      simp only [step]
      cases scope.advance? _ <;> simp [below, deep]

theorem run_within (scan : Scan) (tokens : List Token) (before : List Nat) (outer : List Scope)
    {depth deeper : Nat} (opened : scan.scopes.length = depth + 1)
    (nested : nesting? depth tokens = some deeper) :
    (scan.within before outer).run tokens = (scan.run tokens).within before outer ∧
      (scan.run tokens).scopes.length = deeper + 1 := by
  induction tokens generalizing scan depth with
  | nil =>
    have deep : depth = deeper := by simpa using nested
    exact ⟨rfl, deep ▸ opened⟩
  | cons token tokens ih =>
    obtain ⟨next, first, rest⟩ := Option.bind_eq_some_iff.mp nested
    have inside : scan.scopes ≠ [] := by
      intro empty
      simp [empty] at opened
    rw [run_cons, run_cons, step_within scan token before outer (.inl inside)]
    exact ih (scan.step token) (step_depth scan token opened first) rest

-- Without scopes around, a closing bracket too many is harmless as well: the run has ended for
-- both.
theorem run_before (scan : Scan) (tokens : List Token) (before : List Nat) :
    (scan.within before []).run tokens = (scan.run tokens).within before [] := by
  induction tokens generalizing scan with
  | nil => rfl
  | cons token tokens ih => rw [run_cons, run_cons, step_within scan token before [] (.inr rfl), ih]

theorem finish_before (scan : Scan) (before : List Nat) :
    (scan.within before []).finish = before.reverse ++ scan.finish := by
  simp [within, finish]

end Scan

theorem Balanced.run {tokens : List Token} (balanced : Balanced tokens) (scope : Scope) :
    ∃ completed next, ∀ before outer,
      Scan.run ⟨before, scope :: outer⟩ tokens = ⟨completed ++ before, next :: outer⟩ := by
  have alone := (Scan.run_within ⟨[], [scope]⟩ tokens [] [] rfl balanced).2
  obtain ⟨next, single⟩ := List.length_eq_one_iff.mp alone
  refine ⟨(Scan.run ⟨[], [scope]⟩ tokens).completed, next, ?_⟩
  intro before outer
  have framed := (Scan.run_within ⟨[], [scope]⟩ tokens before outer rfl balanced).1
  simpa [Scan.within, single] using framed

theorem Balanced.ended {tokens : List Token} (balanced : Balanced tokens) :
    ∃ completed scope, Scan.run {} tokens = ⟨completed, [scope]⟩ := by
  obtain ⟨completed, scope, returns⟩ := balanced.run {}
  exact ⟨completed, scope, by simpa using returns [] []⟩

end FluentCensus
