import FluentCensus.Host.Files
import FluentCensus.Host.Home
import FluentCensus.Text.Blank

namespace FluentCensus

structure Assignment where
  name : List Char
  value : List Char
deriving DecidableEq

namespace Dotenv

open Text

def beforeComment? : List Char → Option (List Char)
  | ' ' :: '#' :: _ => some []
  | c :: rest => (beforeComment? rest).map (c :: ·)
  | [] => none

def dropComment (value : List Char) : List Char :=
  match beforeComment? value with
  | some kept => trimRight kept
  | none => value

def unquote (value : List Char) : List Char :=
  let v := trim value
  match v with
  | first :: rest =>
    if (first = '"' ∨ first = '\'') ∧ rest.getLast? = some first then rest.dropLast else v
  | [] => v

/-- Only a value that does not start with a quote can have a comment. -/
def valueOf (text : List Char) : List Char :=
  let v := trim text
  match v with
  | first :: _ => unquote (if first = '"' ∨ first = '\'' then v else dropComment v)
  | [] => []

def dropExport (line : List Char) : List Char :=
  match line with
  | 'e' :: 'x' :: 'p' :: 'o' :: 'r' :: 't' :: ' ' :: rest => rest
  | _ => line

/-- The assignment of a line. Blank lines, comment lines and lines without a name or without an
    equals sign have none. -/
def assignment? (line : List Char) : Option Assignment :=
  let line := trim line
  if line.head? = some '#' then none
  else
    match splitAt? '=' (dropExport line) with
    | none => none
    | some (name, value) =>
      if (trim name).isEmpty then none else some ⟨trim name, valueOf value⟩

def assignments (text : List Char) : List Assignment := (lines text).filterMap assignment?

/-- A variable that already has a value keeps it unless it is to be overridden. An empty value
    counts as none. -/
def assign (override : Bool) (a : Assignment) : HostM Unit := do
  let name := String.ofList a.name
  let kept := ((← get).valueOf? name).any (!·.isEmpty)
  unless kept && !override do Host.setVariable name (String.ofList a.value)

def load (path : Path) (override : Bool := false) : HostM Bool := do
  let path ← (← get).expandHome path
  if ← Host.ask (·.isFile path) then
    let bytes ← Host.ask (·.read path)
    (assignments (Utf8.decode bytes)).forM (assign override)
    return true
  else return false

def upwards (directory : Path) : Nat → List Path
  | 0 => []
  | count + 1 => directory :: upwards directory.parent count

def loadFirst : List Path → HostM (Option Path)
  | [] => return none
  | path :: rest => do if ← load path then return some path else loadFirst rest

/-- Load one file: the given one, or else the first `.env` in the working directory and the ones
    above it. -/
def loadNearest (explicit : Option String) (count : Nat := 5) : HostM (Option Path) := do
  let given := (explicit.filter (!·.isEmpty)).toList.map Path.ofString
  let here : Path := ⟨.root, (← get).tree.cwd⟩
  loadFirst (given ++ (upwards here count).map (·.child ".env"))

end Dotenv

end FluentCensus
