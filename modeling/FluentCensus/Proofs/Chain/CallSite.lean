import FluentCensus.Proofs.Chain.Nesting
import Mathlib

namespace FluentCensus

/-! Tokens before a place stand newest first here. -/

/-- The tokens before the group in which `depth` closing brackets have yet to find their opening
    ones, besides the group's own, which has been taken off. -/
def beforeGroup (depth : Nat) : List Token → List Token
  | [] => []
  | token :: before =>
    match token with
    | .closeParen | .closeBracket => beforeGroup (depth + 1) before
    | .openParen | .openBracket =>
      match depth with
      | 0 => before
      | outer + 1 => beforeGroup outer before
    | .punctuation | .name | .dot => beforeGroup depth before

theorem beforeGroup_length (depth : Nat) (before : List Token) :
    (beforeGroup depth before).length ≤ before.length := by
  induction before generalizing depth with
  | nil => exact Nat.le_refl _
  | cons token before ih =>
    cases token with
    | closeParen | closeBracket => exact Nat.le_succ_of_le (ih (depth + 1))
    | openParen | openBracket =>
      cases depth with
      | zero => exact Nat.le_succ _
      | succ outer => exact Nat.le_succ_of_le (ih outer)
    | punctuation | name | dot => exact Nat.le_succ_of_le (ih depth)

def lastGroup? : List Token → Option (List Token)
  | .closeParen :: inside | .closeBracket :: inside => some (beforeGroup 0 inside)
  | _ => none

theorem lastGroup?_length {before outside : List Token} (group : lastGroup? before = some outside) :
    outside.length < before.length := by
  cases before with
  | nil => cases group
  | cons token inside =>
    have shorter := beforeGroup_length 0 inside
    cases token with
    | closeParen | closeBracket =>
      cases group
      exact Nat.lt_succ_of_le shorter
    | openParen | openBracket | punctuation | name | dot => cases group

def namesBefore (before : List Token) : Nat := (before.takeWhile (· = .name)).length

def behindNames (before : List Token) : List Token := before.dropWhile (· = .name)

/-- Whether an opening bracket that follows applies the name before it. Each name that directly
    follows another takes its place and is given up with it, so the names count in pairs, and after
    a group that was itself applied the first name does not count. -/
def callPosition (before : List Token) : Bool :=
  match _ : lastGroup? (behindNames before) with
  | some outside =>
    if callPosition outside then namesBefore before % 2 = 0 ∧ 2 ≤ namesBefore before
    else namesBefore before % 2 = 1
  | none => namesBefore before % 2 = 1
termination_by before.length
decreasing_by
  have names := (List.dropWhile_suffix (· = Token.name) (l := before)).length_le
  exact Nat.lt_of_lt_of_le (lastGroup?_length ‹_›) names

def afterApplied (before : List Token) : Bool := (lastGroup? before).any callPosition

theorem callPosition_eq (before : List Token) :
    callPosition before =
      if afterApplied (behindNames before) then
        decide (namesBefore before % 2 = 0 ∧ 2 ≤ namesBefore before)
      else decide (namesBefore before % 2 = 1) := by
  rw [callPosition, afterApplied]
  split <;> simp [*]

theorem callPosition_other {before : List Token} (other : before.head? ≠ some .name) :
    callPosition before = false := by
  have none : namesBefore before = 0 := by
    cases before with
    | nil => rfl
    | cons token before =>
      have other : token ≠ .name := by simpa using other
      simp [namesBefore, other]
  rw [callPosition_eq, none]
  simp

theorem callPosition_name {before : List Token} (other : before.head? ≠ some .name) :
    callPosition (.name :: before) = !afterApplied before := by
  have alone : namesBefore (.name :: before) = 1 ∧ behindNames (.name :: before) = before := by
    cases before with
    | nil => exact ⟨rfl, rfl⟩
    | cons token before =>
      have other : token ≠ .name := by simpa using other
      simp [namesBefore, behindNames, other]
  rw [callPosition_eq, alone.1, alone.2]
  cases afterApplied before <;> rfl

theorem callPosition_names (before : List Token) :
    callPosition (.name :: .name :: before) = !callPosition (.name :: before) := by
  have names : namesBefore (.name :: before) = namesBefore before + 1 := by simp [namesBefore]
  have more : namesBefore (.name :: .name :: before) = namesBefore before + 2 := by
    simp [namesBefore]
  have behind : behindNames (.name :: .name :: before) = behindNames (.name :: before) := rfl
  rw [callPosition_eq, callPosition_eq, behind, names, more]
  cases afterApplied (behindNames (.name :: before)) with
  | false =>
    simp only [Bool.false_eq_true, if_false, ← decide_not, decide_eq_decide]
    omega
  | true =>
    simp only [if_true, ← decide_not, decide_eq_decide]
    omega

/-- A phase that the tokens so far of its scope allow. The one after a dot depends on what the dot
    itself followed, but a name makes the same of both. -/
def Phase.Follows (phase : Phase) (before : List Token) : Prop :=
  match before.head? with
  | some .name => phase = if callPosition before then .named else .start
  | some .dot => phase = .start ∨ phase = .dotted
  | _ => phase = if afterApplied before then .applied else .start

namespace Phase.Follows

theorem named_iff {phase : Phase} {before : List Token} (follows : phase.Follows before) :
    phase = .named ↔ callPosition before = true := by
  by_cases name : before.head? = some .name
  · have phase_eq : phase = if callPosition before then .named else .start := by
      simpa [Phase.Follows, name] using follows
    rw [phase_eq]
    cases callPosition before <;> simp
  · rw [callPosition_other name]
    unfold Phase.Follows at follows
    split at follows
    · exact absurd ‹_› name
    · rcases follows with rfl | rfl <;> simp
    · rw [follows]
      cases afterApplied before <;> simp

theorem name {scope : Scope} {before : List Token} (follows : scope.phase.Follows before) :
    ((scope.advance? .name).getD {}).phase.Follows (.name :: before) := by
  obtain ⟨phase, pending⟩ := scope
  by_cases name : before.head? = some .name
  · obtain ⟨earlier, rfl⟩ := List.head?_eq_some_iff.mp name
    have phase_eq : phase = if callPosition (.name :: earlier) then .named else .start := follows
    simp only [Phase.Follows, List.head?_cons, callPosition_names, phase_eq]
    cases callPosition (.name :: earlier) <;> rfl
  · simp only [Phase.Follows, List.head?_cons, callPosition_name name]
    unfold Phase.Follows at follows
    split at follows
    · exact absurd ‹_› name
    · obtain ⟨earlier, rfl⟩ := List.head?_eq_some_iff.mp ‹_›
      rcases follows with rfl | rfl <;> rfl
    · have phase_eq : phase = if afterApplied before then .applied else .start := follows
      rw [phase_eq]
      cases afterApplied before <;> rfl

theorem dot {scope : Scope} {before : List Token} :
    ((scope.advance? .dot).getD {}).phase.Follows (.dot :: before) := by
  obtain ⟨phase, pending⟩ := scope
  cases phase with
  | start | dotted => exact .inl rfl
  | named | applied => exact .inr rfl

theorem punctuation {scope : Scope} {before : List Token} :
    ((scope.advance? .punctuation).getD {}).phase.Follows (.punctuation :: before) := by
  obtain ⟨phase, pending⟩ := scope
  cases phase <;> rfl

theorem entered {scope : Scope} {before : List Token} (follows : scope.phase.Follows before)
    (call : Bool) :
    (scope.enter call).phase = if callPosition before then .applied else .start := by
  have named := follows.named_iff
  obtain ⟨phase, pending⟩ := scope
  cases phase with
  | named => rw [named.mp rfl]; rfl
  | start | applied | dotted =>
    have other : callPosition before = false := by
      rw [← Bool.not_eq_true, ← named]
      exact nofun
    rw [other]
    rfl

end Phase.Follows

def Suspended (scopes : List Scope) (before : List Token) : Prop :=
  ∀ depth scope, scopes[depth]? = some scope →
    scope.phase = if callPosition (beforeGroup depth before) then .applied else .start

namespace Suspended

theorem opened {scope : Scope} {outer : List Scope} {before : List Token}
    (follows : scope.phase.Follows before) (suspended : Suspended outer before)
    (bracket : Bracket) (call : Bool) :
    Suspended (scope.enter call :: outer) (bracket.opening :: before) := by
  intro depth waiting found
  cases depth with
  | zero =>
    obtain rfl : scope.enter call = waiting := by simpa using found
    have outside : beforeGroup 0 (bracket.opening :: before) = before := by cases bracket <;> rfl
    rw [outside]
    exact follows.entered call
  | succ depth =>
    have outside :
        beforeGroup (depth + 1) (bracket.opening :: before) = beforeGroup depth before := by
      cases bracket <;> rfl
    rw [outside]
    exact suspended depth waiting found

theorem closed {scope : Scope} {outer : List Scope} {before : List Token}
    (suspended : Suspended (scope :: outer) before) (bracket : Bracket) :
    scope.phase.Follows (bracket.closing :: before) ∧
      Suspended outer (bracket.closing :: before) := by
  constructor
  · have phase := suspended 0 scope rfl
    cases bracket <;> exact phase
  · intro depth waiting found
    have phase := suspended (depth + 1) waiting found
    cases bracket <;> exact phase

end Suspended

def Scan.Reads (scan : Scan) (tokens : List Token) : Prop :=
  match scan.scopes with
  | [] => nesting? 0 tokens = none
  | scope :: outer =>
    nesting? 0 tokens = some outer.length ∧ scope.phase.Follows tokens.reverse ∧
      Suspended outer tokens.reverse

theorem nesting?_snoc (tokens : List Token) (token : Token) :
    nesting? 0 (tokens ++ [token]) = (nesting? 0 tokens).bind (Token.nest? · token) := by
  simp [nesting?]

namespace Scan.Reads

variable {completed : List Nat} {scope : Scope} {outer : List Scope} {tokens : List Token}

theorem opening (reads : Scan.Reads ⟨completed, scope :: outer⟩ tokens) (bracket : Bracket) :
    (Scan.step ⟨completed, scope :: outer⟩ bracket.opening).Reads
      (tokens ++ [bracket.opening]) := by
  obtain ⟨nested, follows, suspended⟩ := reads
  have inside := suspended.opened follows bracket (bracket = .round)
  rw [bracket.step_opening]
  refine ⟨?_, ?_, ?_⟩
  · rw [nesting?_snoc, nested]
    cases bracket <;> rfl
  · rw [List.reverse_append]
    cases bracket <;> rfl
  · rw [List.reverse_append]
    exact inside

theorem closing (reads : Scan.Reads ⟨completed, scope :: outer⟩ tokens) (bracket : Bracket) :
    (Scan.step ⟨completed, scope :: outer⟩ bracket.closing).Reads
      (tokens ++ [bracket.closing]) := by
  obtain ⟨nested, _, suspended⟩ := reads
  rw [bracket.step_closing]
  have after : nesting? 0 (tokens ++ [bracket.closing]) = bracket.closing.nest? outer.length := by
    rw [nesting?_snoc, nested]
    rfl
  cases outer with
  | nil =>
    have unmatched : nesting? 0 (tokens ++ [bracket.closing]) = none := by
      rw [after]
      cases bracket <;> rfl
    exact unmatched
  | cons next outer =>
    obtain ⟨follows, others⟩ := suspended.closed bracket
    refine ⟨?_, ?_, ?_⟩
    · rw [after]
      cases bracket <;> rfl
    · rw [List.reverse_append]
      exact follows
    · rw [List.reverse_append]
      exact others

theorem item (reads : Scan.Reads ⟨completed, scope :: outer⟩ tokens) {token : Token}
    (item : token = .punctuation ∨ token = .name ∨ token = .dot) :
    (Scan.step ⟨completed, scope :: outer⟩ token).Reads (tokens ++ [token]) := by
  obtain ⟨nested, follows, suspended⟩ := reads
  have same : (Scan.step ⟨completed, scope :: outer⟩ token).scopes =
      (scope.advance? token).getD {} :: outer := by
    rcases item with rfl | rfl | rfl <;>
      simp only [Scan.step] <;> cases scope.advance? _ <;> rfl
  have advanced : ((scope.advance? token).getD {}).phase.Follows (token :: tokens.reverse) := by
    rcases item with rfl | rfl | rfl
    · exact Phase.Follows.punctuation
    · exact follows.name
    · exact Phase.Follows.dot
  rw [Scan.Reads, same, List.reverse_append]
  refine ⟨?_, advanced, ?_⟩
  · rw [nesting?_snoc, nested]
    rcases item with rfl | rfl | rfl <;> rfl
  · intro depth waiting found
    have phase := suspended depth waiting found
    rcases item with rfl | rfl | rfl <;> exact phase

end Scan.Reads

theorem Scan.Reads.step {scan : Scan} {tokens : List Token} (reads : scan.Reads tokens)
    (token : Token) : (scan.step token).Reads (tokens ++ [token]) := by
  obtain ⟨completed, scopes⟩ := scan
  cases scopes with
  | nil =>
    have closed : nesting? 0 tokens = none := reads
    have still : nesting? 0 (tokens ++ [token]) = none := by
      rw [nesting?_snoc, closed]
      rfl
    exact still
  | cons scope outer =>
    cases token with
    | openParen => exact reads.opening .round
    | openBracket => exact reads.opening .square
    | closeParen => exact reads.closing .round
    | closeBracket => exact reads.closing .square
    | punctuation => exact reads.item (.inl rfl)
    | name => exact reads.item (.inr (.inl rfl))
    | dot => exact reads.item (.inr (.inr rfl))

theorem Scan.run_snoc (scan : Scan) (tokens : List Token) (token : Token) :
    scan.run (tokens ++ [token]) = (scan.run tokens).step token := by
  rw [Scan.run_append, Scan.run_cons, Scan.run_nil]

theorem Scan.run_reads (tokens : List Token) : (Scan.run {} tokens).Reads tokens := by
  induction tokens using List.reverseRecOn with
  | nil => exact ⟨rfl, rfl, nofun⟩
  | append_singleton tokens token ih =>
    rw [Scan.run_snoc]
    exact ih.step token

/-- Round brackets in call position, as long as every closing bracket before them was matched. -/
def IsCallSite (tokens : List Token) (place : Nat) : Prop :=
  tokens[place]? = some .openParen ∧ nesting? 0 (tokens.take place) ≠ none ∧
    callPosition (tokens.take place).reverse = true

instance (tokens : List Token) (place : Nat) : Decidable (IsCallSite tokens place) :=
  inferInstanceAs (Decidable (_ ∧ _ ∧ _))

def callSites (tokens : List Token) : List Nat :=
  (List.range tokens.length).filter (IsCallSite tokens ·)

theorem isCallSite_earlier {tokens : List Token} {place : Nat} (earlier : place < tokens.length)
    (token : Token) : IsCallSite (tokens ++ [token]) place ↔ IsCallSite tokens place := by
  have read : (tokens ++ [token]).take place = tokens.take place :=
    List.take_append_of_le_length (Nat.le_of_lt earlier)
  rw [IsCallSite, IsCallSite, List.getElem?_append_left earlier, read]

theorem isCallSite_last (tokens : List Token) (token : Token) :
    IsCallSite (tokens ++ [token]) tokens.length ↔
      token = .openParen ∧ nesting? 0 tokens ≠ none ∧ callPosition tokens.reverse = true := by
  simp [IsCallSite]

theorem callSites_snoc (tokens : List Token) (token : Token) :
    (callSites (tokens ++ [token])).length = (callSites tokens).length +
      if IsCallSite (tokens ++ [token]) tokens.length then 1 else 0 := by
  have before : (List.range tokens.length).filter (IsCallSite (tokens ++ [token]) ·) =
      callSites tokens := by
    apply List.filter_congr
    intro place within
    rw [decide_eq_decide]
    exact isCallSite_earlier (List.mem_range.mp within) token
  rw [callSites, List.length_append, List.length_singleton, List.range_succ, List.filter_append,
    before, List.length_append]
  split <;> simp [*]

namespace Scan

def calls (scan : Scan) : Nat := scan.completed.sum + (scan.scopes.map Scope.pending).sum

theorem chain_sum (scope : Scope) : scope.chain.sum = scope.pending := by
  unfold Scope.chain
  split <;> simp [*]

theorem enter_pending (scope : Scope) (call : Bool) :
    (scope.enter call).pending =
      scope.pending + if call ∧ scope.phase = .named then 1 else 0 := by
  obtain ⟨phase, pending⟩ := scope
  cases phase <;> cases call <;> simp [Scope.enter]

theorem finish_sum (scan : Scan) : scan.finish.sum = scan.calls := by
  have scopes (open_ : List Scope) :
      (open_.flatMap Scope.chain).sum = (open_.map Scope.pending).sum := by
    induction open_ with
    | nil => rfl
    | cons scope outer ih => simp [ih, chain_sum]
  rw [finish, List.sum_append, List.sum_reverse, scopes, calls]

theorem advance_pending {scope next : Scope} {token : Token}
    (advanced : scope.advance? token = some next) : next.pending = scope.pending := by
  obtain ⟨phase, pending⟩ := scope
  unfold Scope.advance? at advanced
  split at advanced <;> cases advanced <;> rfl

theorem calls_step (scan : Scan) (token : Token) :
    (scan.step token).calls = scan.calls +
      if token = .openParen ∧ scan.scopes.head?.map Scope.phase = some .named then 1 else 0 := by
  obtain ⟨completed, scopes⟩ := scan
  cases scopes with
  | nil => simp [step]
  | cons scope outer =>
    cases token with
    | openParen | openBracket =>
      simp [step, calls, enter_pending, Nat.add_left_comm, Nat.add_assoc, Nat.add_comm]
    | closeParen | closeBracket =>
      simp [step, calls, chain_sum, Nat.add_left_comm, Nat.add_assoc]
    | punctuation | name | dot =>
      simp only [step]
      cases advanced : scope.advance? _ with
      | none => simp [calls, chain_sum, Nat.add_left_comm, Nat.add_assoc]
      | some next => simp [calls, advance_pending advanced]

theorem run_calls (tokens : List Token) :
    (Scan.run {} tokens).calls = (callSites tokens).length := by
  induction tokens using List.reverseRecOn with
  | nil => rfl
  | append_singleton tokens token ih =>
    have named : (Scan.run {} tokens).scopes.head?.map Scope.phase = some .named ↔
        nesting? 0 tokens ≠ none ∧ callPosition tokens.reverse = true := by
      have reads := Scan.run_reads tokens
      unfold Scan.Reads at reads
      split at reads
      · simp [*]
      · obtain ⟨nested, follows, -⟩ := reads
        simp [*, follows.named_iff]
    rw [run_snoc, calls_step, ih, callSites_snoc]
    simp only [isCallSite_last, named]

theorem chain_positive (scope : Scope) : ∀ length ∈ scope.chain, 0 < length := by
  intro length member
  unfold Scope.chain at member
  split at member
  · cases member
  · obtain rfl := List.mem_singleton.mp member
    omega

theorem step_completed (scan : Scan) (token : Token) :
    (scan.step token).completed = scan.completed ∨
      ∃ scope : Scope, (scan.step token).completed = scope.chain ++ scan.completed := by
  obtain ⟨completed, scopes⟩ := scan
  cases scopes with
  | nil => exact .inl rfl
  | cons scope outer =>
    cases token with
    | openParen | openBracket => exact .inl rfl
    | closeParen | closeBracket => exact .inr ⟨scope, rfl⟩
    | punctuation | name | dot =>
      simp only [step]
      cases scope.advance? _ with
      | none => exact .inr ⟨scope, rfl⟩
      | some next => exact .inl rfl

theorem run_positive (tokens : List Token) :
    ∀ length ∈ (Scan.run {} tokens).completed, 0 < length := by
  induction tokens using List.reverseRecOn with
  | nil => exact nofun
  | append_singleton tokens token ih =>
    rw [run_snoc]
    rcases step_completed (Scan.run {} tokens) token with same | ⟨scope, finished⟩
    · rw [same]
      exact ih
    · rw [finished]
      intro length member
      rcases List.mem_append.mp member with new | old
      · exact chain_positive scope length new
      · exact ih length old

end Scan

/-- Every chain has a call, and every call site counts once, in one chain. -/
theorem chainLengths_callSites (tokens : List Token) :
    (∀ length ∈ chainLengths tokens, 0 < length) ∧
    (chainLengths tokens).sum = (callSites tokens).length := by
  constructor
  · intro length member
    rcases List.mem_append.mp member with finished | unfinished
    · exact Scan.run_positive tokens length (List.mem_reverse.mp finished)
    · obtain ⟨scope, _, counted⟩ := List.mem_flatMap.mp unfinished
      exact Scan.chain_positive scope length counted
  · rw [chainLengths, Scan.finish_sum, Scan.run_calls]

end FluentCensus
