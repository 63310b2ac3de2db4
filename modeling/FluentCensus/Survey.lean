import FluentCensus.Histogram.Stats
import FluentCensus.Path

namespace FluentCensus

structure Survey where
  name : String
  path : Path
  files : Int
  histogram : Histogram := {}
deriving DecidableEq

namespace Survey

def chains (s : Survey) : Int := s.histogram.total

def stats (s : Survey) (memory : Nat → Bool) : Except StatsError (Stats Float) :=
  Stats.ofHistogram Float memory s.histogram

end Survey

end FluentCensus
