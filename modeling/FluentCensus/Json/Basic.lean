import FluentCensus.Decimal.Nearest
import FluentCensus.Histogram.Basic

namespace FluentCensus

/-- A JSON value. Objects keep the order of their members, and numbers may be any doubles. -/
inductive Json where
  | null
  | bool (b : Bool)
  | int (n : Int)
  | real (x : Decimal)
  | infinity (negative : Bool)
  | undefined
  | string (s : String)
  | array (items : List Json)
  | object (members : List (String × Json))

def intText (n : Int) : List Char :=
  (if n < 0 then ['-'] else []) ++ Decimal.digitText n.natAbs

namespace Json

def get? (name : String) : Json → Option Json
  | .object members => members.lookup name
  | _ => none

/-- Members added to an object: a name that stands there already keeps its place and takes the
    new value, any other goes to the end. -/
def putMember (members : List (String × Json)) (name : String) (value : Json) :
    List (String × Json) :=
  if members.any (·.1 = name) then members.map fun m => if m.1 = name then (name, value) else m
  else members ++ [(name, value)]

def putMembers (members added : List (String × Json)) : List (String × Json) :=
  added.foldl (fun ms m => putMember ms m.1 m.2) members

def ofFloat (x : Float) : Json :=
  if x.isNaN then .undefined
  else if x.isInf then .infinity (x < 0)
  else .real (.ofFloat x)

def ofHistogram (h : Histogram) : Json :=
  .object (h.entries.map fun e => (String.ofList (intText e.1), .int e.2))

end Json

end FluentCensus
