import FluentCensus.CommandLine.Flag
import FluentCensus.Text.Number
import FluentCensus.Text.Wrap

namespace FluentCensus.Usage

def program : String := "method-chains"

def description : String :=
  "Histogram of method-chain lengths per Java project, written as CSV."

/-- The width of the terminal, which the environment gives if it gives a positive number. Two
    columns stay free. -/
def widthOf (columns : Option String) : Int :=
  match columns.bind fun text => Text.readInt? text.toList with
  | some n => (if n ≤ 0 then 80 else n) - 2
  | none => 78

def opening : String := "usage: "

def spaces (n : Nat) : String := String.ofList (List.replicate n ' ')

def part (flag : Flag) : String := "[" ++ flag.withValue (flag.names.headD "") ++ "]"

structure Filling where
  done : List (List String) := []
  line : List String := []
  length : Int

def Filling.step (width : Int) (indent : Nat) (f : Filling) (part : String) : Filling :=
  let size : Int := part.length + 1
  if width < f.length + size ∧ !f.line.isEmpty then
    { done := f.line :: f.done, line := [part], length := indent - 1 + size }
  else { f with line := part :: f.line, length := f.length + size }

def fill (width : Int) (indent start : Nat) (parts : List String) : List String :=
  let f := parts.foldl (Filling.step width indent) { length := (start : Int) - 1 }
  let lines := if f.line.isEmpty then f.done else f.line :: f.done
  lines.reverse.map fun line => " ".intercalate line.reverse

/-- The usage on one line, or on lines that hang behind the program's name. Where the name alone
    takes more than three quarters of a line, the parts stand below it. -/
def usage (width : Int) : String :=
  let parts := Flag.all.map part
  let line := opening ++ " ".intercalate (program :: parts)
  if line.length ≤ width then line ++ "\n"
  else
    let start := opening.length
    let hang := start + program.length
    if 4 * hang ≤ 3 * width then
      let lines := fill width (hang + 1) start (program :: parts)
      opening ++ ("\n" ++ spaces (hang + 1)).intercalate lines ++ "\n"
    else
      let lines := (fill width start start parts).map (spaces start ++ ·)
      opening ++ "\n".intercalate (program :: lines) ++ "\n"

def leastWidth : Int := 11

def invocation (flag : Flag) : String := ", ".intercalate (flag.names.map flag.withValue)

def textColumn (width : Int) : Nat :=
  let longest := ((Flag.all.map fun flag => (invocation flag).length).foldl max 0) + 4
  min longest (min 24 (max (width - 20) 4)).toNat

def entry (width : Int) (flag : Flag) : String :=
  let column := textColumn width
  let names := "  " ++ invocation flag
  let lines := Text.wrap (max (width - column) leastWidth).toNat flag.text
  let text := ("\n" ++ spaces column).intercalate lines
  if names.length + 2 ≤ column then names ++ spaces (column - names.length) ++ text ++ "\n"
  else names ++ "\n" ++ spaces column ++ text ++ "\n"

def help (width : Int) : String :=
  usage width ++ "\n" ++
    "\n".intercalate (Text.wrap (max width leastWidth).toNat description) ++ "\n\noptions:\n" ++
    String.join (Flag.all.map (entry width))

end FluentCensus.Usage
