namespace FluentCensus.Text

def isLetter (c : Char) : Bool := c.isAlpha || c = '_'

/-- A line may end after a hyphen with two letters before and two after it. The text before stands
    newest first. -/
def mayBreak (before after : List Char) : Bool :=
  match before, after with
  | '-' :: b :: a :: _, c :: '-' :: d :: _ | '-' :: b :: a :: _, c :: d :: _ =>
    isLetter a && isLetter b && isLetter c && isLetter d
  | _, _ => false

def pieces (word : List Char) : List Char → List (List Char)
  | [] => if word.isEmpty then [] else [word.reverse]
  | c :: rest =>
    if !word.isEmpty ∧ (c = ' ') ≠ (word.head? = some ' ') then
      word.reverse :: pieces [c] rest
    else if mayBreak (c :: word) rest then (c :: word).reverse :: pieces [] rest
    else pieces (c :: word) rest

def fitting (width : Nat) : List (List Char) → List (List Char) × List (List Char)
  | [] => ([], [])
  | piece :: rest =>
    if piece.length ≤ width then
      let (line, left) := fitting (width - piece.length) rest
      (piece :: line, left)
    else ([], piece :: rest)

/-- One line and the pieces after it. A piece that no line could hold fills this one up. -/
def takeLine (width : Nat) (all : List (List Char)) : List (List Char) × List (List Char) :=
  match fitting width all with
  | (line, piece :: rest) =>
    if width < piece.length then
      let space := width - line.flatten.length
      (line ++ [piece.take space], piece.drop space :: rest)
    else (line, piece :: rest)
  | all => all

def isSpaces (piece : List Char) : Bool := piece.all (· = ' ')

/-- Lines lose the spaces they start with, the first line excepted, and the last piece of a line is
    lost if it is blank. The fuel bounds the number of lines. -/
def wrapLines (width : Nat) : Nat → Bool → List (List Char) → List (List Char)
  | 0, _, _ | _, _, [] => []
  | fuel + 1, first, piece :: rest =>
    let start := if isSpaces piece ∧ !first then rest else piece :: rest
    let (line, left) := takeLine width start
    let kept := if (line.getLast?.map isSpaces).getD false then line.dropLast else line
    if kept.isEmpty then wrapLines width fuel first left
    else kept.flatten :: wrapLines width fuel false left

def wrap (width : Nat) (text : String) : List String :=
  let pieces := pieces [] text.toList
  (wrapLines width (2 * text.length + 1) true pieces).map String.ofList

end FluentCensus.Text
