import FluentCensus.Json.Printer
import FluentCensus.Path

namespace FluentCensus

structure Measures where
  files : Option Int := none
  chains : Option Int := none
  histogram : Option Histogram := none
deriving DecidableEq

def Measures.update (old new : Measures) : Measures where
  files := new.files <|> old.files
  chains := new.chains <|> old.chains
  histogram := new.histogram <|> old.histogram

structure Record where
  runId : String
  stage : String
  project : Option String := none
  measures : Measures := {}
  /-- Milliseconds from the start of the work to its end. -/
  latency : Option Int := none
  /-- The label of what made the work fail. -/
  error : Option String := none
  extra : List (String × Json) := []

namespace Record

def optional (toJson : α → Json) : Option α → Json
  | none => .null
  | some a => toJson a

def toJson (r : Record) : Json := .object [
  ("run_id", .string r.runId),
  ("stage", .string r.stage),
  ("project", optional .string r.project),
  ("files", optional .int r.measures.files),
  ("chains", optional .int r.measures.chains),
  ("histogram", optional .ofHistogram r.measures.histogram),
  ("latency_ms", optional .int r.latency),
  ("ok", .bool r.error.isNone),
  ("error_type", .string (r.error.getD "")),
  ("extra", .object r.extra)]

def line (r : Record) : List Char := r.toJson.text ++ ['\n']

end Record

end FluentCensus
