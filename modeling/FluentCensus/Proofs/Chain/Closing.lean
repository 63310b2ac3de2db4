import FluentCensus.Proofs.Chain.Extension

namespace FluentCensus

namespace Scan

theorem run_over (completed : List Nat) (tokens : List Token) :
    run ⟨completed, []⟩ tokens = ⟨completed, []⟩ := by
  induction tokens with
  | nil => rfl
  | cons token tokens ih => exact ih

theorem run_closing (completed : List Nat) (scopes : List Scope) (closers : List Bracket)
    (enough : closers.length = scopes.length) :
    run ⟨completed, scopes⟩ (closers.map Bracket.closing) =
      ⟨(scopes.flatMap Scope.chain).reverse ++ completed, []⟩ := by
  induction scopes generalizing completed closers with
  | nil =>
    obtain rfl := List.length_eq_zero_iff.mp enough
    rfl
  | cons scope outer ih =>
    obtain ⟨closer, others, rfl⟩ := List.exists_cons_of_length_eq_add_one enough
    have fewer : others.length = outer.length := Nat.succ.inj enough
    rw [List.map_cons, run_cons, closer.step_closing, ih _ _ fewer, List.flatMap_cons,
      List.reverse_append, Scope.chain_reverse, List.append_assoc]

end Scan

theorem chainLengths_closed {tokens : List Token} {depth : Nat}
    (nested : nesting? 0 tokens = some depth) {closers : List Bracket}
    (enough : closers.length = depth + 1) (rest : List Token) :
    chainLengths (tokens ++ closers.map Bracket.closing ++ rest) = chainLengths tokens := by
  have opened := (Scan.run_within {} tokens [] [] rfl nested).2
  have scopes : closers.length = (Scan.run {} tokens).scopes.length := enough.trans opened.symm
  have closed := Scan.run_closing (Scan.run {} tokens).completed _ closers scopes
  rw [chainLengths, Scan.run_append, Scan.run_append, closed, Scan.run_over]
  simp [Scan.finish, chainLengths]

/-- The same tokens but for the kinds of closing brackets and of those opening ones that do not
    directly follow a name. -/
inductive Rebracketed : List Token → List Token → Prop
  | nil : Rebracketed [] []
  | same {tokens others : List Token} (before : Rebracketed tokens others) (token : Token) :
      Rebracketed (tokens ++ [token]) (others ++ [token])
  | closing {tokens others : List Token} (before : Rebracketed tokens others)
      (one another : Bracket) : Rebracketed (tokens ++ [one.closing]) (others ++ [another.closing])
  | opening {tokens others : List Token} (before : Rebracketed tokens others)
      (unnamed : tokens.getLast? ≠ some .name) (one another : Bracket) :
      Rebracketed (tokens ++ [one.opening]) (others ++ [another.opening])

theorem Scope.enter_unnamed {scope : Scope} (unnamed : scope.phase ≠ .named) (one another : Bool) :
    scope.enter one = scope.enter another := by
  obtain ⟨phase, pending⟩ := scope
  cases phase with
  | named => contradiction
  | start | applied | dotted => rfl

theorem Rebracketed.run {tokens others : List Token} (alike : Rebracketed tokens others) :
    Scan.run {} others = Scan.run {} tokens := by
  induction alike with
  | nil => rfl
  | same before token ih => rw [Scan.run_snoc, Scan.run_snoc, ih]
  | @closing tokens others before one another ih =>
    rw [Scan.run_snoc, Scan.run_snoc, ih]
    cases Scan.run {} tokens with
    | mk completed scopes =>
      cases scopes with
      | nil => rfl
      | cons scope outer => rw [one.step_closing, another.step_closing]
  | @opening tokens others before unnamed one another ih =>
    rw [Scan.run_snoc, Scan.run_snoc, ih]
    cases ran : Scan.run {} tokens with
    | mk completed scopes =>
      cases scopes with
      | nil => rfl
      | cons scope outer =>
        have plain : scope.phase ≠ .named := by
          intro named
          exact unnamed (Scan.run_named (congrArg Scan.scopes ran) named)
        rw [one.step_opening, another.step_opening, Scope.enter_unnamed plain]

/-- Closing every open scope is as good as the end of the tokens, whatever follows; and the kind of
    a bracket counts only where it opens behind a name. -/
theorem chainLengths_brackets :
    (∀ (tokens : List Token) (depth : Nat) (closers : List Bracket) (rest : List Token),
      nesting? 0 tokens = some depth → closers.length = depth + 1 →
      chainLengths (tokens ++ closers.map Bracket.closing ++ rest) = chainLengths tokens) ∧
    ∀ tokens others : List Token, Rebracketed tokens others →
      chainLengths others = chainLengths tokens := by
  constructor
  · intro tokens depth closers rest nested enough
    exact chainLengths_closed nested enough rest
  · intro tokens others alike
    rw [chainLengths, alike.run, chainLengths]

theorem chainLengths_brackets_crossed :
    nesting? 0 [.name, .openParen, .name, .openBracket] = some 2 ∧
    chainLengths ([.name, .openParen, .name, .openBracket] ++
      [.closeParen, .closeParen, .closeBracket] ++ [.name, .openParen]) =
        chainLengths [.name, .openParen, .name, .openBracket] ∧
    Rebracketed [.name, .openParen, .openBracket, .name, .closeBracket, .closeParen]
      [.name, .openParen, .openParen, .name, .closeBracket, .closeBracket] ∧
    chainLengths [.name, .openParen, .openParen, .name, .closeBracket, .closeBracket] =
      chainLengths [.name, .openParen, .openBracket, .name, .closeBracket, .closeParen] := by
  have nested : nesting? 0 [.name, .openParen, .name, .openBracket] = some 2 := rfl
  have alike : Rebracketed [.name, .openParen, .openBracket, .name, .closeBracket, .closeParen]
      [.name, .openParen, .openParen, .name, .closeBracket, .closeBracket] := by
    have before := Rebracketed.nil |>.same .name |>.same .openParen
    have inner := before.opening (by decide) .square .round |>.same .name
    exact inner.closing .square .square |>.closing .round .square
  exact ⟨nested, chainLengths_brackets.1 _ 2 [.round, .round, .square] _ nested rfl, alike,
    chainLengths_brackets.2 _ _ alike⟩

end FluentCensus
