import FluentCensus.Source.Comment
import FluentCensus.Source.Lexeme

namespace FluentCensus

inductive Phase where
  | start
  /-- After a name, which a parenthesis would call. -/
  | named
  /-- After a call or an index, which a dot would continue. -/
  | applied
  | dotted
deriving DecidableEq

/-- The inside of one pair of brackets, with the calls of its unfinished chain. -/
structure Scope where
  phase : Phase := .start
  pending : Nat := 0
deriving DecidableEq

namespace Scope

def chain (s : Scope) : List Nat :=
  if s.pending = 0 then [] else [s.pending]

@[simp] theorem chain_reverse (s : Scope) : s.chain.reverse = s.chain := by
  unfold chain
  split <;> rfl

/-- A bracket after a name applies it, and only a parenthesis makes that a call. A bracket after
    anything else starts the scope afresh but keeps its count. -/
def enter (s : Scope) (call : Bool) : Scope :=
  match s.phase with
  | .named => ⟨.applied, if call then s.pending + 1 else s.pending⟩
  | .start => s
  | .applied | .dotted => { s with phase := .start }

def advance? (s : Scope) (token : Token) : Option Scope :=
  match s.phase, token with
  | .start, .name | .dotted, .name => some { s with phase := .named }
  | .start, _ => some s
  | .named, .dot | .applied, .dot => some { s with phase := .dotted }
  | _, _ => none

end Scope

/-- Finished chains stand newest first and open scopes innermost first. Without an open scope the
    analysis is over. -/
structure Scan where
  completed : List Nat := []
  scopes : List Scope := [{}]
deriving DecidableEq

namespace Scan

def step (scan : Scan) (token : Token) : Scan :=
  match scan.scopes with
  | [] => scan
  | scope :: outer =>
    match token with
    | .closeParen | .closeBracket => ⟨scope.chain ++ scan.completed, outer⟩
    | .openParen => { scan with scopes := {} :: scope.enter true :: outer }
    | .openBracket => { scan with scopes := {} :: scope.enter false :: outer }
    | _ =>
      match scope.advance? token with
      | some next => { scan with scopes := next :: outer }
      | none => ⟨scope.chain ++ scan.completed, {} :: outer⟩

def run (scan : Scan) (tokens : List Token) : Scan := tokens.foldl step scan

@[simp] theorem run_nil (scan : Scan) : scan.run [] = scan := rfl

@[simp] theorem run_cons (scan : Scan) (token : Token) (tokens : List Token) :
    scan.run (token :: tokens) = (scan.step token).run tokens := rfl

theorem run_append (scan : Scan) (first second : List Token) :
    scan.run (first ++ second) = (scan.run first).run second :=
  List.foldl_append

def finish (scan : Scan) : List Nat :=
  scan.completed.reverse ++ scan.scopes.flatMap Scope.chain

end Scan

/-- The length of every chain in the order of completion. Brackets need not match: a closing one
    ends the scope it stands in, and with no scope left the rest is ignored. -/
def chainLengths (tokens : List Token) : List Nat :=
  (Scan.run {} tokens).finish

def chainCounts (text : List Char) : List Nat :=
  chainLengths (tokens (Comment.strip text))

end FluentCensus
