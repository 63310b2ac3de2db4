import FluentCensus.Host.Home
import FluentCensus.Text.Blank

namespace FluentCensus

structure Settings where
  projectDir : Option Path := none
  outputPath : Option Path := none
  tracePath : Option Path := none
  ignored : List String := []
deriving DecidableEq

namespace Settings

open Text

def variableName (name : String) : String := "METHOD_CHAINS_" ++ name

def pathOf (host : Host) (value : Option String) : Except Fault (Option Path) :=
  let text := trim (value.getD "").toList
  if text.isEmpty then .ok none
  else (host.expandHome (Path.ofString (String.ofList text))).map some

def namesOf (value : String) : List String :=
  (((split ',' value.toList).map trim).filter (!·.isEmpty)).map String.ofList |>.eraseDups

/-- Variables are looked up in `environment`; a home directory is always the host's. -/
def read (host : Host) (environment : List (String × String)) : Except Fault Settings := do
  let value (name : String) := environment.lookup (variableName name)
  return {
    projectDir := ← pathOf host (value "PROJECT_DIR")
    outputPath := ← pathOf host (value "OUTPUT_PATH")
    tracePath := ← pathOf host (value "TRACE_PATH")
    ignored := namesOf ((value "IGNORE_DIRS").getD "") }

end Settings

end FluentCensus
