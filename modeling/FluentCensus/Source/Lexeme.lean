namespace FluentCensus

/-- The category of a lexeme; more is not needed to find chains. -/
inductive Token where
  | punctuation
  | name
  | dot
  | openParen
  | closeParen
  | openBracket
  | closeBracket
deriving DecidableEq

structure Lexeme where
  token : Token
  text : List Char
deriving DecidableEq

namespace Lexeme

def isSpace (c : Char) : Bool := c ∈ [' ', '\t', '\n', '\r']

def isPunctuation (c : Char) : Bool :=
  c ∈ ['*', '/', '+', '-', '%', '\\', ';', ',', '@', ':', '=', '{', '}', '<', '>', '!', '~', '?',
    '&', '|', '^', '"', '\'']

def single? (c : Char) : Option Token :=
  match c with
  | '.' => some .dot
  | '(' => some .openParen
  | ')' => some .closeParen
  | '[' => some .openBracket
  | ']' => some .closeBracket
  | _ => if isPunctuation c then some .punctuation else none

/-- A name is a run of characters that are neither space nor a lexeme of their own. -/
def isNameChar (c : Char) : Bool := !isSpace c && (single? c).isNone

structure Lexing where
  done : List Lexeme := []
  run : List Char := []
deriving DecidableEq

def Lexing.close (l : Lexing) : List Lexeme :=
  if l.run.isEmpty then l.done else ⟨.name, l.run.reverse⟩ :: l.done

def Lexing.step (l : Lexing) (c : Char) : Lexing :=
  if isSpace c then { done := l.close }
  else match single? c with
    | some token => { done := ⟨token, [c]⟩ :: l.close }
    | none => { l with run := c :: l.run }

end Lexeme

/-- The lexemes of a text in its order; space only keeps names apart. -/
def lexemes (text : List Char) : List Lexeme :=
  (text.foldl Lexeme.Lexing.step {}).close.reverse

def tokens (text : List Char) : List Token :=
  (lexemes text).map Lexeme.token

end FluentCensus
