namespace FluentCensus.Comment

inductive Place where
  | code
  /-- After a slash that may open a comment. -/
  | slash
  | line
  | block
  /-- Inside a block comment, after a star that may close it. -/
  | star
deriving DecidableEq

structure Stripping where
  place : Place := .code
  kept : List Char := []
deriving DecidableEq

/-- A slash is held back until the next character tells whether it opens a comment. -/
def Stripping.step (s : Stripping) (c : Char) : Stripping :=
  match s.place with
  | .code => if c = '/' then { s with place := .slash } else { s with kept := c :: s.kept }
  | .slash =>
    if c = '/' then { s with place := .line }
    else if c = '*' then { s with place := .block }
    else { place := .code, kept := c :: '/' :: s.kept }
  | .line => if c = '\n' ∨ c = '\r' then { s with place := .code } else s
  | .block => if c = '*' then { s with place := .star } else s
  | .star =>
    if c = '/' then { s with place := .code }
    else if c = '*' then s
    else { s with place := .block }

/-- The text without its comments. The line end that closes a line comment goes with it, an
    unclosed comment takes the rest, and a slash that ends the text is dropped. -/
def strip (text : List Char) : List Char :=
  (text.foldl Stripping.step {}).kept.reverse

end FluentCensus.Comment
