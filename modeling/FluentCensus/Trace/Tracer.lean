import FluentCensus.Host.Files

namespace FluentCensus

namespace Tracer

/-- The directory of the trace is made at once, its file only by the first record. -/
def make (runId : String) (path : Path) (extra : List (String × Json) := []) : HostM Tracer := do
  Host.ensureDirectories path.parent
  let serial := (← get).made
  modify fun host => { host with made := serial + 1 }
  return { serial, runId, path, extra }

/-- Add a record to the trace. It is of the tracer's run, and its own extras override the
    tracer's. -/
def log (tracer : Tracer) (record : Record) : HostM Unit :=
  Host.appendText tracer.path
    { record with
      runId := tracer.runId
      extra := Json.putMembers tracer.extra record.extra }.line

/-- Run with a tracer in force. The one in force before is so again afterwards, also on a fault. -/
def during (tracer : Tracer) (action : HostM α) : HostM α := do
  let outer := (← get).tracers
  let restore : HostM Unit := modify fun host => { host with tracers := outer }
  modify fun host => { host with tracers := tracer :: outer }
  let result ← try action catch fault => do restore; throw fault
  restore
  return result

end Tracer

def Host.tracer? (host : Host) : Option Tracer := host.tracers.head?

structure Span where
  tracer : Tracer
  stage : String
  project : Option String := none
  start : Nat := 0
  measures : Measures := {}
  extra : List (String × Json) := []

namespace Span

def enter (span : Span) : HostM Span := do return { span with start := ← Host.readClock }

def record (span : Span) (measures : Measures) (extra : List (String × Json) := []) : Span :=
  { span with
    measures := span.measures.update measures
    extra := Json.putMembers span.extra extra }

def finish (span : Span) (error : Option String := none) : HostM Unit := do
  let latency : Int := (← Host.readClock) - span.start
  span.tracer.log {
    runId := span.tracer.runId
    stage := span.stage
    project := span.project
    measures := span.measures
    latency := some latency
    error
    extra := span.extra }

/-- Do work of a span. A fault ends the span, and a fault in writing the record then takes the
    first one's place. -/
def guard (span : Span) (action : HostM α) : HostM α :=
  try action
  catch fault => do
    span.finish (some fault.label)
    throw fault

end Span

end FluentCensus
