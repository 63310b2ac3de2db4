namespace FluentCensus.Text

def isWhite (c : Char) : Bool :=
  let n := c.toNat
  (0x09 ≤ n ∧ n ≤ 0x0d) ∨ n = 0x20 ∨ n = 0x85 ∨ n = 0xa0 ∨ n = 0x1680 ∨
    (0x2000 ≤ n ∧ n ≤ 0x200a) ∨ n = 0x2028 ∨ n = 0x2029 ∨ n = 0x202f ∨ n = 0x205f ∨ n = 0x3000

/-- The characters that trimming removes: the white space and the four separators of the control
    range. -/
def isBlank (c : Char) : Bool := isWhite c || (0x1c ≤ c.toNat && c.toNat ≤ 0x1f)

def isLineEnd (c : Char) : Bool :=
  let n := c.toNat
  (0x0a ≤ n ∧ n ≤ 0x0d) ∨ (0x1c ≤ n ∧ n ≤ 0x1e) ∨ n = 0x85 ∨ n = 0x2028 ∨ n = 0x2029

def trimLeft (text : List Char) : List Char := text.dropWhile isBlank

def trimRight (text : List Char) : List Char := (text.reverse.dropWhile isBlank).reverse

def trim (text : List Char) : List Char := trimRight (trimLeft text)

def trimWhite (text : List Char) : List Char :=
  ((text.dropWhile isWhite).reverse.dropWhile isWhite).reverse

structure Lines where
  done : List (List Char) := []
  line : List Char := []
  /-- A line feed after a carriage return ends no second line. -/
  returned : Bool := false
deriving DecidableEq

def Lines.step (l : Lines) (c : Char) : Lines :=
  if c = '\n' ∧ l.returned then { l with returned := false }
  else if isLineEnd c then { done := l.line.reverse :: l.done, returned := c = '\r' }
  else { l with line := c :: l.line, returned := false }

/-- The lines of a text without their ends; an end at the very end opens no further line. -/
def lines (text : List Char) : List (List Char) :=
  let l := text.foldl Lines.step {}
  (if l.line.isEmpty then l.done else l.line.reverse :: l.done).reverse

end FluentCensus.Text
