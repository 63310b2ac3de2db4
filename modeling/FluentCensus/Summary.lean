import FluentCensus.Host.Files
import FluentCensus.Survey

namespace FluentCensus.Summary

def statsJson (s : Stats Float) : Json := .object [
  ("chains", .int s.chains),
  ("mean_length", .ofFloat s.mean),
  ("median_length", .ofFloat s.median),
  ("p95_length", .ofFloat s.p95),
  ("max_length", .int s.longest),
  ("chained_share", .ofFloat s.chained)]

def projectJson (memory : Nat → Bool) (s : Survey) : Except StatsError Json := do
  return .object [
    ("project", .string s.name),
    ("path", .string s.path.toString),
    ("files", .int s.files),
    ("histogram", .ofHistogram s.histogram),
    ("stats", statsJson (← s.stats memory))]

def json (memory : Nat → Bool) (surveys : List Survey) : Except StatsError Json := do
  let projects ← surveys.mapM (projectJson memory)
  return .object [
    ("projects", .array projects),
    ("total_files", .int (sumOf (surveys.map Survey.files))),
    ("total_chains", .int (sumOf (surveys.map Survey.chains)))]

inductive Destination where
  | nowhere
  | unnamed
  | file (path : Path)
deriving DecidableEq

def write (surveys : List Survey) (path : Path) : HostM Unit := do
  Host.ensureDirectories path.parent
  match json (← get).tree.machine.memory surveys with
  | .error e => throw (.stats e)
  | .ok value => Host.writeText path (value.indented 0)

end FluentCensus.Summary
