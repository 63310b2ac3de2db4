import FluentCensus.Proofs.Chain.Nesting

namespace FluentCensus

def Bracket.around (bracket : Bracket) (inside : List Token) : List Token :=
  bracket.opening :: inside ++ [bracket.closing]

mutual

inductive Expression where
  | mk (head : Head) (segments : List Segment)

inductive Head where
  | single (segment : Segment)
  | group (bracket : Bracket) (arguments : List Expression)

inductive Segment where
  | name
  | applied (bracket : Bracket) (arguments : List Expression)

end

mutual

def Expression.tokens : Expression → List Token
  | .mk head segments => head.tokens ++ Segment.dotted segments

def Head.tokens : Head → List Token
  | .single segment => segment.tokens
  | .group bracket arguments => bracket.around (Expression.separated arguments)

def Segment.tokens : Segment → List Token
  | .name => [.name]
  | .applied bracket arguments => .name :: bracket.around (Expression.separated arguments)

def Segment.dotted : List Segment → List Token
  | [] => []
  | segment :: rest => .dot :: segment.tokens ++ Segment.dotted rest

def Expression.separated : List Expression → List Token
  | [] => []
  | [last] => last.tokens
  | first :: second :: rest =>
    first.tokens ++ .punctuation :: Expression.separated (second :: rest)

end

def Segment.isCall : Segment → Bool
  | .applied .round _ => true
  | _ => false

def Head.segments : Head → List Segment
  | .single segment => [segment]
  | .group _ _ => []

def callCount (segments : List Segment) : Nat := segments.countP Segment.isCall

mutual

/-- The chains in the arguments from left to right, and then the number of calls of its own. -/
def Expression.chains : Expression → List Nat
  | .mk head segments =>
    head.argumentChains ++ Segment.allArgumentChains segments ++
      match callCount (head.segments ++ segments) with
      | 0 => []
      | calls => [calls]

def Head.argumentChains : Head → List Nat
  | .single segment => segment.argumentChains
  | .group _ arguments => Expression.allChains arguments

def Segment.argumentChains : Segment → List Nat
  | .name => []
  | .applied _ arguments => Expression.allChains arguments

def Segment.allArgumentChains : List Segment → List Nat
  | [] => []
  | segment :: rest => segment.argumentChains ++ Segment.allArgumentChains rest

def Expression.allChains : List Expression → List Nat
  | [] => []
  | expression :: rest => expression.chains ++ Expression.allChains rest

end

structure Program where
  expressions : List Expression
  /-- Whether punctuation follows the last expression, too. -/
  ended : Bool

def Program.tokens (program : Program) : List Token :=
  Expression.separated program.expressions ++ if program.ended then [.punctuation] else []

def Program.chains (program : Program) : List Nat := Expression.allChains program.expressions

end FluentCensus
