import FluentCensus.Text.Split

namespace FluentCensus

/-- Where a path starts. Two leading slashes are kept apart from one; more count as one. -/
inductive Anchor where
  | relative
  | root
  | doubleRoot
deriving DecidableEq

def Anchor.text : Anchor → String
  | .relative => ""
  | .root => "/"
  | .doubleRoot => "//"

/-- A path as it is written, without the parts that change nothing. Going up is kept, because
    what it undoes may be a link. -/
structure Path where
  anchor : Anchor := .relative
  parts : List String := []
deriving DecidableEq

namespace Path

def anchorOf : List Char → Anchor
  | '/' :: '/' :: '/' :: _ => .root
  | '/' :: '/' :: _ => .doubleRoot
  | '/' :: _ => .root
  | _ => .relative

def components (text : String) : List String :=
  ((Text.split '/' text.toList).filter (!·.isEmpty)).map String.ofList

def ofString (text : String) : Path :=
  ⟨anchorOf text.toList, (components text).filter (· ≠ ".")⟩

def toString (p : Path) : String :=
  if p.anchor = .relative ∧ p.parts.isEmpty then "."
  else p.anchor.text ++ "/".intercalate p.parts

def name (p : Path) : String := p.parts.getLastD ""

def parent (p : Path) : Path := { p with parts := p.parts.dropLast }

def child (p : Path) (name : String) : Path := { p with parts := p.parts ++ [name] }

def dotted (p : Path) : Path := { p with parts := "." :: p.parts }

/-- The end of a name from its last dot on, unless the dot begins or ends the name. -/
def suffixOf (name : String) : String :=
  let text := name.toList
  let after := text.reverse.takeWhile (· ≠ '.')
  let dot := text.length - after.length
  if dot ≤ 1 ∨ after.isEmpty then "" else String.ofList ('.' :: after.reverse)

end Path

end FluentCensus
