import FluentCensus.Json.Basic
import FluentCensus.Survey

namespace FluentCensus.Csv

def isSpecial (c : Char) : Bool := c ∈ [',', '"', '\r', '\n']

/-- A field is quoted if it is empty or holds a special character. A quote inside is written
    twice. -/
def field (text : List Char) : List Char :=
  if text.isEmpty ∨ text.any isSpecial then
    '"' :: (text.flatMap (fun c => if c = '"' then ['"', '"'] else [c]) ++ ['"'])
  else text

def separator : List Char := [',', ' ']

def header : List Char :=
  separator.intercalate ["project".toList, "chain length".toList, "frequency".toList]

def row (name : List Char) (length count : Int) : List Char :=
  separator.intercalate [field name, intText length, intText count]

def rows (s : Survey) : List (List Char) :=
  (s.histogram.entries.mergeSort fun a b => b.1 ≤ a.1).map fun e => row s.name.toList e.1 e.2

def endLine (row : List Char) : List Char := row ++ ['\n']

end FluentCensus.Csv
