import FluentCensus.Trace.Record
import FluentCensus.Tree.Write

namespace FluentCensus

structure Tracer where
  /-- Tells tracers apart that are otherwise alike. -/
  serial : Nat
  runId : String
  path : Path
  /-- What every record of the run has among its extras. -/
  extra : List (String × Json) := []

structure Host where
  tree : FileTree := {}
  /-- The variables of the environment, each once. -/
  environment : List (String × String) := []
  homes : List (String × String) := []
  /-- The home directory of the user that runs the program. -/
  login : Option String := none
  /-- The time in milliseconds at each reading of the clock. -/
  clock : Nat → Nat := fun _ => 0
  readings : Nat := 0
  runId : String := ""
  /-- The tracers in force, the innermost first. -/
  tracers : List Tracer := []
  made : Nat := 0
  output : String := ""
  errors : String := ""

/-- An operation on the host. What it changed before a fault stays changed. -/
abbrev HostM := ExceptT Fault (StateM Host)

namespace Host

def ask (question : FileTree → Except Fault α) : HostM α := do
  match question (← get).tree with
  | .ok a => return a
  | .error fault => throw fault

def readClock : HostM Nat := do
  let host ← get
  set { host with readings := host.readings + 1 }
  return host.clock host.readings

def setTree (tree : FileTree) : HostM Unit := modify fun host => { host with tree }

def printError (text : String) : HostM Unit :=
  modify fun host => { host with errors := host.errors ++ text }

def print (text : String) : HostM Unit :=
  modify fun host => { host with output := host.output ++ text }

def progress (quiet : Bool) (line : String) : HostM Unit :=
  unless quiet do printError (line ++ "\n")

def valueOf? (host : Host) (name : String) : Option String := host.environment.lookup name

def putVariable (name value : String) : List (String × String) → List (String × String)
  | [] => [(name, value)]
  | (n, old) :: rest =>
    if n = name then (n, value) :: rest else (n, old) :: putVariable name value rest

def setVariable (name value : String) : HostM Unit := do
  if '\x00' ∈ name.toList ∨ '\x00' ∈ value.toList then throw .nulCharacter
  modify fun host => { host with environment := putVariable name value host.environment }

end Host

end FluentCensus
